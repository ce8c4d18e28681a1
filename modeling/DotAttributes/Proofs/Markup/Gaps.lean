import DotAttributes.Proofs.Markup.Regions

/-!
# What stands between the tokens of a markup label

A label is woven from its tokens and the gaps in front of them. A gap in a tag is made of blanks,
and one between tags of whole comments; at the end there may be a comment that is not closed
(`isWoven_lexFrom`). In which region a gap or a token stands is said by the characters in front of
it, to which the scanner keeps (`IsSettled`). It reports something exactly if the label ends in a
comment or in a value (`unclosed_lexFrom`).
-/

namespace DotAttributes.Markup

open Text

/-! ## Gaps -/

/-- What may be passed over in a region: blanks in a tag, and whole comments between tags. -/
inductive IsGap : Region → List Char → Prop
  | blanks {cs : List Char} (blank : ∀ c ∈ cs, isBlank c = true) : IsGap .tag cs
  | comments {comments : List (List Char)} (closed : ∀ comment ∈ comments, IsComment comment) :
      IsGap .content comments.flatten

/-- What may be passed over in front of the end: a gap, with a comment behind it that does not end,
if it is between tags. Nothing is left behind a value that does not end. -/
inductive IsLastGap : Region → List Char → Prop
  | gap {region : Region} {cs : List Char} (isGap : IsGap region cs) : IsLastGap region cs
  | comment {gap body : List Char} (isGap : IsGap .content gap)
      (unclosed : ¬ ['-', '-', '>'] <:+: body) :
      IsLastGap .content (gap ++ (['<', '!', '-', '-'] ++ body))
  | value {quote : Char} : IsLastGap (.value quote) []

/-- What tokens of a kind are made of, and in which region they stand. -/
inductive TokenKind.Accepts : TokenKind → Region → List Char → Prop
  | text {cs : List Char} (ne_nil : cs ≠ []) (plain : '<' ∉ cs) : Accepts .text .content cs
  | tagOpen : Accepts .tagOpen .content ['<']
  | closeTagOpen : Accepts .closeTagOpen .content ['<', '/']
  | name {cs : List Char} (isName : IsName cs) : Accepts .name .tag cs
  | equals : Accepts .equals .tag ['=']
  | value {quote : Char} {body : List Char} (quoted : isQuote quote = true)
      (plain : quote ∉ body) : Accepts .value .tag (quote :: body ++ [quote])
  /-- a value that does not end -/
  | openValue {quote : Char} {body : List Char} (quoted : isQuote quote = true)
      (plain : quote ∉ body) : Accepts .value .tag (quote :: body)
  | tagClose : Accepts .tagClose .tag ['>']
  | selfClose : Accepts .selfClose .tag ['/', '>']
  | unknown {c : Char} (not_blank : isBlank c = false) (not_quote : isQuote c = false)
      (not_name : isNameChar c = false) (ne : c ≠ '>' ∧ c ≠ '=') : Accepts .unknown .tag [c]

/-- Behind `front`, a text is made of the given tokens, with a gap in front of each. The last one is
the end, and all others are made of what their kinds say. -/
inductive IsWoven : List Char → List Char → List Token → Prop
  | eof {front gap : List Char} (isLastGap : IsLastGap (regionBehind .content front) gap) :
      IsWoven front gap [⟨.eof, [], Span.empty (size (front ++ gap))⟩]
  | token {front gap text rest : List Char} {kind : TokenKind} {tokens : List Token}
      (isGap : IsGap (regionBehind .content front) gap)
      (accepts : kind.Accepts (regionBehind .content front) text)
      (rest_woven : IsWoven (front ++ gap ++ text) rest tokens) :
      IsWoven front (gap ++ text ++ rest)
        (⟨kind, text, Span.ofSize (size (front ++ gap)) (size text)⟩ :: tokens)

variable {front rest gap more u : List Char} {region : Region} {mode : Mode} {c : Char}
  {cs : List Char} {tokens : List Token}

theorem TokenKind.Accepts.ne_nil {kind : TokenKind} {text : List Char}
    (h : kind.Accepts region text) : text ≠ [] := by
  cases h with
  | text hne _ => exact hne
  | name hname => exact hname.ne_nil
  | _ => exact List.cons_ne_nil _ _

theorem TokenKind.Accepts.ne_eof {kind : TokenKind} {text : List Char}
    (h : kind.Accepts region text) : kind ≠ .eof := by
  rintro rfl
  cases h

theorem isGap_nil (mode : Mode) : IsGap mode.region [] := by
  cases mode with
  | content =>
    have hnil : ∀ comment ∈ ([] : List (List Char)), IsComment comment := nofun
    exact .comments hnil
  | tag => exact .blanks nofun

theorem IsGap.append (h : IsGap region gap) (hmore : IsGap region more) :
    IsGap region (gap ++ more) := by
  cases h with
  | blanks hblanks =>
    cases hmore with
    | blanks hmore => exact .blanks (List.forall_mem_append.2 ⟨hblanks, hmore⟩)
  | comments hcomments =>
    cases hmore with
    | comments hmore =>
      rw [← List.flatten_append]
      exact .comments (List.forall_mem_append.2 ⟨hcomments, hmore⟩)

theorem IsLastGap.append (h : IsGap region gap) (hmore : IsLastGap region more) :
    IsLastGap region (gap ++ more) := by
  cases hmore with
  | gap hmore => exact .gap (h.append hmore)
  | comment hmore hbody =>
    rw [← List.append_assoc]
    exact .comment (h.append hmore) hbody
  | value => cases h

/-- What is passed over belongs to the gap in front of the next token. -/
theorem IsWoven.skip (hgap : IsGap (regionBehind .content front) gap)
    (hregion : regionBehind .content (front ++ gap) = regionBehind .content front)
    (h : IsWoven (front ++ gap) rest tokens) : IsWoven front (gap ++ rest) tokens := by
  cases h with
  | @eof _ more hmore =>
    rw [hregion] at hmore
    rw [List.append_assoc]
    exact .eof (IsLastGap.append hgap hmore)
  | @token _ more text rest kind tokens hmore haccepts hrest =>
    rw [hregion] at hmore haccepts
    rw [List.append_assoc front gap more, ← List.append_assoc gap, ← List.append_assoc gap] at *
    exact .token (hgap.append hmore) haccepts hrest

/-- What is woven ends with the end of the text, and no other token is empty. -/
theorem IsWoven.exists_eof (h : IsWoven front rest tokens) :
    ∃ others, tokens = others ++ [⟨.eof, [], Span.empty (size (front ++ rest))⟩] ∧
      ∀ token ∈ others, token.kind ≠ .eof ∧ token.span.start < token.span.stop := by
  induction h with
  | eof => exact ⟨[], rfl, nofun⟩
  | @token front gap text rest kind tokens _ haccepts _ ih =>
    obtain ⟨others, rfl, hothers⟩ := ih
    have hlt : size (front ++ gap) < size (front ++ gap) + size text :=
      Nat.lt_add_of_pos_right (Nat.pos_of_ne_zero (mt size_eq_zero_iff.1 haccepts.ne_nil))
    refine ⟨⟨kind, text, Span.ofSize (size (front ++ gap)) (size text)⟩ :: others, ?_,
      List.forall_mem_cons.2 ⟨⟨haccepts.ne_eof, hlt⟩, hothers⟩⟩
    rw [List.cons_append, List.append_assoc, List.append_assoc, List.append_assoc]

/-- The tokens stand behind what is in front of the text. -/
theorem IsWoven.le_start (h : IsWoven front rest tokens) :
    ∀ token ∈ tokens, size front ≤ token.span.start := by
  induction h with
  | eof =>
    refine List.forall_mem_singleton.2 ?_
    simp
  | token _ _ _ ih =>
    refine List.forall_mem_cons.2 ⟨by simp, fun token htoken => ?_⟩
    have hle := ih token htoken
    simp only [size_append] at hle
    omega

/-- Each token stops before the next one starts. -/
theorem IsWoven.pairwise (h : IsWoven front rest tokens) :
    tokens.Pairwise fun x y => x.span.stop ≤ y.span.start := by
  induction h with
  | eof => exact List.pairwise_singleton _ _
  | token _ _ hrest ih =>
    refine List.pairwise_cons.2 ⟨fun token htoken => ?_, ih⟩
    have hle := hrest.le_start token htoken
    rwa [size_append] at hle

/-! ## The scanner -/

/-- However far a text behind `front` is read, it is read from the region of a mode on. -/
def IsSettled (mode : Mode) (front rest : List Char) : Prop :=
  ∀ u, u <+: rest → regionBehind .content (front ++ u) = regionBehind mode.region u

theorem IsSettled.region_eq (h : IsSettled mode front rest) :
    regionBehind .content front = mode.region := by
  have hnil := h [] List.nil_prefix
  rwa [List.append_nil] at hnil

/-- A piece that is closed settles its mode. -/
theorem IsSettled.taken (h : IsSettled mode front (c :: cs))
    (hclosed : (nextPiece mode c cs).unclosed = none) :
    IsSettled (nextPiece mode c cs).mode (front ++ (nextPiece mode c cs).taken)
      (nextPiece mode c cs).rest := by
  intro u hu
  have hbegins : (nextPiece mode c cs).taken ++ u <+: c :: cs := by
    rw [← taken_append_rest mode c cs]
    exact (List.prefix_append_right_inj _).2 hu
  rw [List.append_assoc, h _ hbegins, regionBehind_taken hclosed hu]

/-- What is passed over between tags and closed is a comment. -/
theorem isGap_contentPiece (hkind : (contentPiece c cs).kind = none)
    (hclosed : (contentPiece c cs).unclosed = none) :
    IsGap .content (contentPiece c cs).taken ∧ (contentPiece c cs).mode = .content := by
  generalize hpiece : contentPiece c cs = piece at *
  unfold contentPiece at hpiece
  split at hpiece
  · unfold commentPiece at hpiece
    split at hpiece
    · next hsplit =>
      subst hpiece
      obtain ⟨body, rfl, hbody⟩ := splitComment?_eq_some hsplit
      have hcomment : IsComment (['<', '!', '-', '-'] ++ body ++ ['-', '-', '>']) :=
        ⟨body, rfl, hbody⟩
      have hgap := IsGap.comments (List.forall_mem_singleton.2 hcomment)
      rw [List.flatten_singleton, List.append_assoc] at hgap
      exact ⟨hgap, rfl⟩
    · cases hpiece
      cases hclosed
  all_goals
    cases hpiece
    cases hkind

/-- What is passed over in a tag is blanks. -/
theorem isGap_tagPiece (hkind : (tagPiece c cs).kind = none) :
    IsGap .tag (tagPiece c cs).taken ∧ (tagPiece c cs).mode = .tag := by
  revert hkind
  fun_cases tagPiece c cs with
  | case1 hblank =>
    intro _
    exact ⟨.blanks (List.forall_mem_cons.2 ⟨hblank, fun d => List.mem_takeWhile_imp⟩), rfl⟩
  | case5 =>
    intro hvalue
    unfold valuePiece at hvalue
    split at hvalue <;> cases hvalue
  | case2 | case3 | case4 | case6 | case7 =>
    intro htoken
    cases htoken

/-- What is passed over and closed is a gap, and does not change the mode. -/
theorem isGap_nextPiece (hkind : (nextPiece mode c cs).kind = none)
    (hclosed : (nextPiece mode c cs).unclosed = none) :
    IsGap mode.region (nextPiece mode c cs).taken ∧ (nextPiece mode c cs).mode = mode := by
  cases mode with
  | content => exact isGap_contentPiece hkind hclosed
  | tag => exact isGap_tagPiece hkind

/-- Between tags, a piece that is a token is what its kind says. -/
theorem accepts_contentPiece {kind : TokenKind} (hkind : (contentPiece c cs).kind = some kind) :
    kind.Accepts .content (contentPiece c cs).taken := by
  generalize hpiece : contentPiece c cs = piece at *
  unfold contentPiece at hpiece
  split at hpiece
  · unfold commentPiece at hpiece
    split at hpiece <;>
    · cases hpiece
      cases hkind
  · cases hpiece
    cases hkind
    exact .closeTagOpen
  · cases hpiece
    cases hkind
    exact .tagOpen
  · next hne _ _ =>
    cases hpiece
    cases hkind
    exact .text (List.cons_ne_nil _ _) (not_mem_takeWhile_text hne _)

/-- In a tag, a piece that is a token is what its kind says. -/
theorem accepts_tagPiece {kind : TokenKind} (hkind : (tagPiece c cs).kind = some kind) :
    kind.Accepts .tag (tagPiece c cs).taken := by
  revert hkind
  fun_cases tagPiece c cs with
  | case1 =>
    intro hkind
    cases hkind
  | case2 =>
    rintro ⟨⟩
    exact .tagClose
  | case3 =>
    rintro ⟨⟩
    exact .selfClose
  | case4 =>
    rintro ⟨⟩
    exact .equals
  | case5 _ _ _ _ hquote =>
    unfold valuePiece
    split
    · next hsplit =>
      rintro ⟨⟩
      exact .value hquote (not_mem_of_splitFirst? hsplit)
    · next hsplit =>
      rintro ⟨⟩
      exact .openValue hquote (not_mem_of_splitFirst?_eq_none hsplit)
  | case6 _ _ _ _ _ hname =>
    rintro ⟨⟩
    exact .name ⟨List.cons_ne_nil _ _,
      List.forall_mem_cons.2 ⟨hname, fun d => List.mem_takeWhile_imp⟩⟩
  | case7 hblank hclose _ hequals hquote hname =>
    rintro ⟨⟩
    exact .unknown (Bool.eq_false_iff.2 hblank) (Bool.eq_false_iff.2 hquote)
      (Bool.eq_false_iff.2 hname) ⟨hclose, hequals⟩

theorem accepts_nextPiece {kind : TokenKind} (hkind : (nextPiece mode c cs).kind = some kind) :
    kind.Accepts mode.region (nextPiece mode c cs).taken := by
  cases mode with
  | content => exact accepts_contentPiece hkind
  | tag => exact accepts_tagPiece hkind

/-- A piece that is a token stands right behind `front`. -/
theorem isWoven_token {kind : TokenKind} (h : IsSettled mode front (c :: cs))
    (hkind : (nextPiece mode c cs).kind = some kind)
    (htail : IsWoven (front ++ (nextPiece mode c cs).taken) (nextPiece mode c cs).rest tokens) :
    IsWoven front (c :: cs) (Token.at kind (nextPiece mode c cs).taken (size front) :: tokens) := by
  have hgap : IsGap (regionBehind .content front) [] := by
    rw [h.region_eq]
    exact isGap_nil mode
  have haccepts := accepts_nextPiece hkind
  rw [← h.region_eq] at haccepts
  rw [← taken_append_rest mode c cs]
  have htoken := IsWoven.token hgap haccepts (by rwa [List.append_nil])
  rwa [List.append_nil] at htoken

/-- A piece that is not closed takes all that is left. -/
theorem taken_of_unclosed {unclosed : Unclosed}
    (h : (nextPiece mode c cs).unclosed = some unclosed) :
    (nextPiece mode c cs).taken = c :: cs := by
  have htaken := taken_append_rest mode c cs
  rwa [(regionBehind_unclosed h).1, List.append_nil] at htaken

/-- Nothing is cut behind it but the end. -/
theorem lexFrom_of_unclosed {unclosed : Unclosed}
    (h : (nextPiece mode c cs).unclosed = some unclosed) (next : Mode) (offset : Nat) :
    lexFrom next offset (nextPiece mode c cs).rest =
      ⟨[⟨.eof, [], Span.empty offset⟩], []⟩ := by
  rw [(regionBehind_unclosed h).1, lexFrom]

/-- Behind a value that is not closed there is only the end. -/
theorem isLastGap_of_value {kind : TokenKind} {unclosed : Unclosed}
    (h : IsSettled mode front (c :: cs)) (hkind : (nextPiece mode c cs).kind = some kind)
    (hunclosed : (nextPiece mode c cs).unclosed = some unclosed) :
    IsLastGap (regionBehind .content (front ++ (nextPiece mode c cs).taken)) [] := by
  obtain ⟨-, hend⟩ := regionBehind_unclosed hunclosed
  cases mode with
  | content =>
    obtain ⟨-, hnone, -⟩ := contentPiece_unclosed hunclosed
    cases hnone.symm.trans hkind
  | tag =>
    obtain ⟨rfl, -⟩ := tagPiece_unclosed hunclosed
    rw [taken_of_unclosed hunclosed, h _ (List.prefix_refl _)]
    cases hregion : regionBehind Mode.tag.region (c :: cs) with
    | value => exact .value
    | content | comment | tag =>
      rw [hregion] at hend
      cases hend

/-- A comment that is not closed stands in front of the end. -/
theorem isLastGap_of_comment {unclosed : Unclosed} (h : IsSettled mode front (c :: cs))
    (hkind : (nextPiece mode c cs).kind = none)
    (hunclosed : (nextPiece mode c cs).unclosed = some unclosed) :
    IsLastGap (regionBehind .content front) (c :: cs) := by
  cases mode with
  | content =>
    obtain ⟨-, -, -, body, hbody, hinfix⟩ := contentPiece_unclosed hunclosed
    rw [h.region_eq, hbody]
    exact .comment (isGap_nil .content) hinfix
  | tag =>
    obtain ⟨-, hvalue, -⟩ := tagPiece_unclosed hunclosed
    cases hvalue.symm.trans hkind

/-- **Gaps.** The tokens that are cut are woven into the text. -/
theorem isWoven_lexFrom (mode : Mode) (offset : Nat) (rest : List Char) :
    ∀ front, size front = offset → IsSettled mode front rest →
      IsWoven front rest (lexFrom mode offset rest).tokens := by
  fun_induction lexFrom mode offset rest with
  | case1 mode offset =>
    rintro front rfl h
    have hgap : IsLastGap (regionBehind .content front) [] := by
      rw [h.region_eq]
      exact .gap (isGap_nil mode)
    have heof := IsWoven.eof hgap
    rwa [List.append_nil] at heof
  | case2 mode offset c cs piece stop tail ih =>
    rintro front rfl h
    have hstop : size (front ++ piece.taken) = stop := size_append _ _
    have htail : piece.unclosed = none → IsWoven (front ++ piece.taken) piece.rest tail.tokens :=
      fun hclosed => ih _ hstop (h.taken hclosed)
    cases hkind : piece.kind with
    | none =>
      cases hunclosed : piece.unclosed with
      | none =>
        -- the region stays as it is, so the gap in front of the next token gets longer
        obtain ⟨hgap, hmode⟩ := isGap_nextPiece hkind hunclosed
        have hregion := (h.taken hunclosed).region_eq
        rw [hmode, ← h.region_eq] at hregion
        rw [← h.region_eq] at hgap
        rw [← taken_append_rest mode c cs]
        exact (htail hunclosed).skip hgap hregion
      | some unclosed =>
        have htaken : piece.taken = c :: cs := taken_of_unclosed hunclosed
        have heof := IsWoven.eof (isLastGap_of_comment h hkind hunclosed)
        rw [← htaken, hstop, htaken] at heof
        have hend : tail = ⟨[⟨.eof, [], Span.empty stop⟩], []⟩ :=
          lexFrom_of_unclosed hunclosed _ _
        rw [hend]
        exact heof
    | some kind =>
      refine isWoven_token h hkind ?_
      cases hunclosed : piece.unclosed with
      | none => exact htail hunclosed
      | some unclosed =>
        have heof := IsWoven.eof (isLastGap_of_value h hkind hunclosed)
        rw [List.append_nil, hstop] at heof
        have hend : tail = ⟨[⟨.eof, [], Span.empty stop⟩], []⟩ :=
          lexFrom_of_unclosed hunclosed _ _
        rw [hend, (regionBehind_unclosed hunclosed).1]
        exact heof

/-- **Ends.** What is reported is what the text does not close. -/
theorem unclosed_lexFrom (mode : Mode) (offset : Nat) (cs : List Char) :
    (lexFrom mode offset cs).unclosed.map Located.item =
      (regionBehind mode.region cs).unclosed?.toList := by
  fun_induction lexFrom mode offset cs with
  | case1 mode offset => cases mode <;> rfl
  | case2 mode offset c cs piece stop tail ih =>
    cases hunclosed : piece.unclosed with
    | none =>
      have hregion := regionBehind_taken hunclosed (List.prefix_refl _)
      rw [taken_append_rest] at hregion
      rw [hregion]
      exact ih
    | some unclosed =>
      have hend : tail = ⟨[⟨.eof, [], Span.empty stop⟩], []⟩ :=
        lexFrom_of_unclosed hunclosed _ _
      rw [(regionBehind_unclosed hunclosed).2, hend]
      cases unclosed <;> rfl

/-! ## A whole label -/

theorem isSettled_start (cs : List Char) : IsSettled .content [] cs := fun _ _ => rfl

theorem Region.unclosed?_ne_none_iff : region.unclosed? ≠ none ↔
    region = .comment ∨ ∃ quote, region = .value quote := by
  cases region <;> simp [Region.unclosed?]

/-- **Tokens.** The tokens of a label and the gaps in front of them make it up: the gaps are blanks
in a tag, and comments between tags, of which only the last one may not end. The last token is the
end of the label, all others have the characters of their kinds, and they follow each other. At most
one thing is reported, and one is exactly if the label ends in a comment or in a value. -/
theorem lex_isWoven (cs : List Char) :
    IsWoven [] cs (lex cs).tokens ∧
      (∃ others, (lex cs).tokens = others ++ [⟨.eof, [], Span.empty (size cs)⟩] ∧
        ∀ token ∈ others, token.kind ≠ .eof ∧ token.span.start < token.span.stop) ∧
      ((lex cs).tokens.Pairwise fun x y => x.span.stop ≤ y.span.start) ∧
      (lex cs).unclosed.length ≤ 1 ∧
      ((lex cs).unclosed ≠ [] ↔ regionBehind .content cs = .comment ∨
        ∃ quote, regionBehind .content cs = .value quote) := by
  have hwoven : IsWoven [] cs (lex cs).tokens :=
    isWoven_lexFrom .content 0 cs [] rfl (isSettled_start cs)
  have hunclosed : (lex cs).unclosed.map Located.item =
      (regionBehind .content cs).unclosed?.toList := unclosed_lexFrom .content 0 cs
  refine ⟨hwoven, hwoven.exists_eof, hwoven.pairwise, ?_, ?_⟩
  · rw [← List.length_map (f := Located.item), hunclosed]
    exact Option.length_toList_le
  · have hnil : (lex cs).unclosed = [] ↔ (regionBehind .content cs).unclosed? = none := by
      rw [← List.map_eq_nil_iff (f := Located.item), hunclosed, Option.toList_eq_nil_iff]
    exact (not_congr hnil).trans Region.unclosed?_ne_none_iff

end DotAttributes.Markup
