import DotAttributes.Proofs.Markup.Gaps
import DotAttributes.Proofs.Markup.Grammar

/-!
# The scanner and the reader of markup labels in step

The scanner knows from the characters whether it is in a tag, and cuts other tokens there than
between tags. The reader knows from the tokens that it has read whether the next one belongs to the
content of a level or to a tag. Neither asks the other, but they always agree (`mode_of_run`): a
token leaves both in the same mode, which depends on its kind only (`mode_nextPiece`,
`mode_of_step`).

So on a level the reader never meets a token that only stands in a tag, and never waits in vain for
a `<` (`mode_of_cuts`).
-/

namespace DotAttributes.Markup

/-! ## Modes of tokens -/

/-- The mode behind a token of a kind. -/
def TokenKind.modeBehind : TokenKind → Mode
  | tagOpen | closeTagOpen | name | equals | value | unknown => .tag
  | text | tagClose | selfClose | eof => .content

/-- The mode in which the reader expects the next token to be cut. -/
def Place.mode : Place → Mode
  | content => .content
  | tagName | attributes _ | equals .. | value .. | closeName | closeEnd _ => .tag

/-- The tokens of what is left of a label, each with the mode in which the scanner is when it cuts
the token. -/
def cutsFrom (mode : Mode) (offset : Nat) : List Char → List (Mode × Token)
  | [] => [(mode, ⟨.eof, [], Span.empty offset⟩)]
  | c :: cs =>
    let piece := nextPiece mode c cs
    let stop := offset + Text.size piece.taken
    (piece.kind.map fun kind => (mode, ⟨kind, piece.taken, ⟨offset, stop⟩⟩)).toList ++
      cutsFrom piece.mode stop piece.rest
termination_by cs => cs.length
decreasing_by exact rest_length_lt mode c cs

/-- The tokens of a label, each with the mode in which it is cut. -/
def cuts (cs : List Char) : List (Mode × Token) := cutsFrom .content 0 cs

/-! ## The scanner -/

variable {cs : List Char} {c : Char} {mode found : Mode} {offset : Nat} {token : Token}
  {before after : List (Mode × Token)} {state next : State} {fault : Located Fault}

/-- The modes say nothing about what is cut. -/
theorem map_snd_cutsFrom (mode : Mode) (offset : Nat) (cs : List Char) :
    (cutsFrom mode offset cs).map Prod.snd = (lexFrom mode offset cs).tokens := by
  fun_induction cutsFrom mode offset cs with
  | case1 mode offset => rw [lexFrom, List.map_singleton]
  | case2 mode offset c cs piece stop ih =>
    rw [List.map_append, ih, lexFrom]
    cases piece.kind <;> rfl

/-- A piece that is a token leaves the scanner in the mode behind the token, any other piece in the
mode in which it was. -/
theorem mode_nextPiece (mode : Mode) (c : Char) (cs : List Char) :
    (nextPiece mode c cs).mode =
      ((nextPiece mode c cs).kind.map TokenKind.modeBehind).getD mode := by
  cases mode with
  | content =>
    show (contentPiece c cs).mode =
      ((contentPiece c cs).kind.map TokenKind.modeBehind).getD .content
    unfold contentPiece commentPiece
    repeat' split
    all_goals rfl
  | tag =>
    show (tagPiece c cs).mode = ((tagPiece c cs).kind.map TokenKind.modeBehind).getD .tag
    unfold tagPiece valuePiece
    repeat' split
    all_goals rfl

theorem TokenKind.Accepts.kind_of_content {kind : TokenKind} (h : kind.Accepts .content cs) :
    kind = .text ∨ kind = .tagOpen ∨ kind = .closeTagOpen ∨ kind = .eof := by
  cases h with
  | text => exact Or.inl rfl
  | tagOpen => exact Or.inr (Or.inl rfl)
  | closeTagOpen => exact Or.inr (Or.inr (Or.inl rfl))

/-- Between tags the scanner cuts text, the openings of tags, and the end. -/
theorem kind_of_mem_cutsFrom (h : (found, token) ∈ cutsFrom mode offset cs)
    (hfound : found = .content) : token.kind = .text ∨ token.kind = .tagOpen ∨
      token.kind = .closeTagOpen ∨ token.kind = .eof := by
  fun_induction cutsFrom mode offset cs with
  | case1 mode offset =>
    cases List.mem_singleton.1 h
    exact Or.inr (Or.inr (Or.inr rfl))
  | case2 mode offset c cs piece stop ih =>
    rcases List.mem_append.1 h with h | h
    · obtain ⟨kind, hkind, heq⟩ := Option.map_eq_some_iff.1 (Option.mem_toList.1 h)
      cases heq
      subst hfound
      exact (accepts_nextPiece hkind).kind_of_content
    · exact ih h

/-! ## The reader -/

/-- A step leaves the reader in the mode behind the token. -/
theorem mode_of_step (h : step state token = .ok next) :
    next.place.mode = token.kind.modeBehind := by
  obtain ⟨stack, content, place⟩ := state
  cases place with
  | content =>
    simp only [step, stepContent] at h
    split at h
    · next hkind =>
      cases h
      rw [hkind]
      rfl
    · next hkind =>
      cases h
      rw [hkind]
      rfl
    · next hkind =>
      split at h
      · cases h
      · cases h
        rw [hkind]
        rfl
    · next hkind =>
      split at h
      · cases h
        rw [hkind]
        rfl
      · cases h
    · cases h
  | attributes opening =>
    simp only [step, stepAttributes] at h
    split at h
    · next hkind =>
      cases h
      rw [hkind]
      rfl
    · next hkind =>
      cases h
      rw [hkind]
      rfl
    · next hkind =>
      cases h
      rw [hkind]
      rfl
    · cases h
  | tagName | equals | value | closeName =>
    simp only [step] at h
    split at h
    · next hkind =>
      cases h
      rw [hkind]
      rfl
    · cases h
  | closeEnd name =>
    simp only [step] at h
    split at h
    · next hkind =>
      cases h
      rw [hkind]
      cases stack <;> rfl
    · cases h

/-- **In step.** A reader that is in the mode of the scanner stays in it: whatever has been read,
the next token is cut in the mode in which the reader expects it. -/
theorem mode_of_run (mode : Mode) (offset : Nat) (cs : List Char) :
    ∀ (before : List (Mode × Token)) (state : State),
      cutsFrom mode offset cs = before ++ (found, token) :: after → state.place.mode = mode →
        run state (before.map Prod.snd) = .ok next → found = next.place.mode := by
  fun_induction cutsFrom mode offset cs with
  | case1 mode offset =>
    intro before state hcuts hstate hrun
    cases before with
    | nil =>
      cases hcuts
      cases hrun
      exact hstate.symm
    | cons first before => simp at hcuts
  | case2 mode offset c cs piece stop ih =>
    intro before state hcuts hstate hrun
    have hmode : piece.mode = (piece.kind.map TokenKind.modeBehind).getD mode :=
      mode_nextPiece mode c cs
    cases hkind : piece.kind with
    | none =>
      -- nothing is cut, and the mode stays as it is
      rw [hkind] at hcuts hmode
      exact ih _ _ hcuts (hstate.trans hmode.symm) hrun
    | some kind =>
      rw [hkind] at hcuts hmode
      cases before with
      | nil =>
        cases hcuts
        cases hrun
        exact hstate.symm
      | cons first before =>
        obtain ⟨rfl, hrest⟩ := List.cons_eq_cons.1 hcuts
        rw [List.map_cons, run] at hrun
        split at hrun
        · next state' hstep => exact ih _ _ hrest ((mode_of_step hstep).trans hmode.symm) hrun
        · cases hrun

/-! ## Faults -/

theorem detail_mismatched (found : Token) (expected : Expected) :
    (Fault.mismatched found expected).detail = "Mismatched input '" ++ found.describe ++
      ("' expecting " ++ expected.wording ++ ".") := by
  simp only [← String.append_assoc]
  rfl

theorem detail_extraneous (found : Token) (expected : Expected) :
    (Fault.extraneous found expected).detail = "Extraneous input '" ++ found.describe ++
      ("' expecting " ++ expected.wording ++ ".") := by
  simp only [← String.append_assoc]
  rfl

/-- No two wordings of what was expected end with `'<'`. -/
theorem Expected.eq_content_of_isSuffix {expected : Expected} {front : String}
    (h : "expecting '<'.".toList <:+
      (front ++ ("' expecting " ++ expected.wording ++ ".")).toList) : expected = .content := by
  rw [String.toList_append] at h
  have hending := List.suffix_append front.toList ("' expecting " ++ expected.wording ++ ".").toList
  cases expected with
  | content => rfl
  | endOfLabel | tagName | equals | value | tagEnd | closeTag =>
    have hsuffix := List.suffix_of_suffix_length_le h hending (by decide)
    exact absurd hsuffix (by decide)

/-- Only a fault of the content of a level says that a `<` was expected. -/
theorem exists_content_of_isSuffix_detail
    (h : "expecting '<'.".toList <:+ fault.item.detail.toList) :
    ∃ token, fault.item = .mismatched token .content ∨ fault.item = .extraneous token .content := by
  cases hitem : fault.item with
  | unclosed what =>
    rw [hitem] at h
    cases what <;> exact absurd h (by decide)
  | mismatched token expected =>
    rw [hitem, detail_mismatched] at h
    cases Expected.eq_content_of_isSuffix h
    exact ⟨token, Or.inl rfl⟩
  | extraneous token expected =>
    rw [hitem, detail_extraneous] at h
    cases Expected.eq_content_of_isSuffix h
    exact ⟨token, Or.inr rfl⟩

/-- A step does not fail for want of content, if the token is one that is cut between tags where
one of them is expected. -/
theorem ne_content_of_step_error (hkind : state.place = .content → token.kind = .text ∨
      token.kind = .tagOpen ∨ token.kind = .closeTagOpen ∨ token.kind = .eof)
    (h : step state token = .error fault) (other : Token) :
    fault.item ≠ .mismatched other .content ∧ fault.item ≠ .extraneous other .content := by
  obtain ⟨stack, content, place⟩ := state
  cases place with
  | content =>
    simp only [step, stepContent] at h
    rcases hkind rfl with hkind | hkind | hkind | hkind
    · rw [hkind] at h
      cases h
    · rw [hkind] at h
      cases h
    · rw [hkind] at h
      simp only [surplus] at h
      split at h <;> cases h
      exact ⟨by simp, by simp⟩
    · rw [hkind] at h
      simp only [mismatch] at h
      split at h <;> cases h
      exact ⟨by simp, by simp⟩
  | attributes opening =>
    simp only [step, stepAttributes, mismatch] at h
    split at h <;> cases h
    exact ⟨by simp, by simp⟩
  | tagName | equals | value | closeName | closeEnd =>
    simp only [step, mismatch] at h
    split at h <;> cases h
    exact ⟨by simp, by simp⟩

/-! ## Labels -/

/-- Where a level goes on, the next token has been cut between tags. -/
theorem kind_of_run (hcuts : cuts cs = before ++ (found, token) :: after)
    (hrun : run .start (before.map Prod.snd) = .ok state) (hplace : state.place = .content) :
    token.kind = .text ∨ token.kind = .tagOpen ∨ token.kind = .closeTagOpen ∨
      token.kind = .eof := by
  have hmode := mode_of_run .content 0 cs before .start hcuts rfl hrun
  rw [hplace] at hmode
  have hmem : (found, token) ∈ cuts cs := by
    rw [hcuts]
    exact List.mem_append_right _ List.mem_cons_self
  exact kind_of_mem_cutsFrom hmem hmode

/-- A label is not refused for want of content. -/
theorem ne_content_of_read_error (h : read cs = .error fault) (other : Token) :
    fault.item ≠ .mismatched other .content ∧ fault.item ≠ .extraneous other .content := by
  simp only [read] at h
  split at h
  · cases h
    exact ⟨by simp [Located.map], by simp [Located.map]⟩
  · split at h
    · cases h
    · next hrun =>
      cases h
      obtain ⟨front, token, rest, state, hsplit, hfront, hstep⟩ := exists_token_of_run_error hrun
      have hcuts : (cuts cs).map Prod.snd = front ++ token :: rest := by
        rw [← hsplit]
        exact map_snd_cutsFrom .content 0 cs
      obtain ⟨before, _, hbefore, rfl, hlast⟩ := List.map_eq_append_iff.1 hcuts
      obtain ⟨⟨mode, _⟩, after, rfl, rfl, -⟩ := List.map_eq_cons_iff.1 hlast
      exact ne_content_of_step_error (kind_of_run hbefore hfront) hstep other

/-- **In step.** Whenever the reader looks at a token, the scanner has cut it in the mode in which
the reader expects it: in a tag from the opening of the tag up to its `>` or `/>`, and between tags
on a level. There it is text, the opening of a tag or of a close tag, or the end. So no label is
refused because a level goes on with anything else, and no fault says that a `<` was expected. -/
theorem mode_of_cuts (cs : List Char) :
    (cuts cs).map Prod.snd = (lex cs).tokens ∧
      (∀ before mode token after state, cuts cs = before ++ (mode, token) :: after →
        run .start (before.map Prod.snd) = .ok state →
          mode = state.place.mode ∧
            (state.place = .content → token.kind = .text ∨ token.kind = .tagOpen ∨
              token.kind = .closeTagOpen ∨ token.kind = .eof)) ∧
      ∀ fault, read cs = .error fault →
        (∀ token, fault.item ≠ .extraneous token .content) ∧
          ¬ "expecting '<'.".toList <:+ fault.item.detail.toList := by
  refine ⟨map_snd_cutsFrom .content 0 cs, fun before mode token after state hcuts hrun => ?_,
    fun fault hread => ?_⟩
  · exact ⟨mode_of_run .content 0 cs before .start hcuts rfl hrun, kind_of_run hcuts hrun⟩
  · refine ⟨fun token => (ne_content_of_read_error hread token).2, fun hsuffix => ?_⟩
    obtain ⟨token, hfault | hfault⟩ := exists_content_of_isSuffix_detail hsuffix
    · exact (ne_content_of_read_error hread token).1 hfault
    · exact (ne_content_of_read_error hread token).2 hfault

/-- A `>` in quotes does not end a tag, neither for the scanner nor for the reader. -/
theorem mode_of_cuts_quotedBracket :
    ∃ before token after opening name fault,
      cuts "<b c='>'>x".toList = before ++ (.tag, token) :: after ∧ token.kind = .value ∧
      run .start (before.map Prod.snd) = .ok ⟨[], [], .value opening name⟩ ∧
      Mode.tag = (Place.value opening name).mode ∧
      read "<b c='>'>x".toList = .error fault ∧
      ¬ "expecting '<'.".toList <:+ fault.item.detail.toList := by
  have hcuts : cuts "<b c='>'>x".toList =
      [(.content, ⟨.tagOpen, ['<'], ⟨0, 1⟩⟩), (.tag, ⟨.name, ['b'], ⟨1, 2⟩⟩),
        (.tag, ⟨.name, ['c'], ⟨3, 4⟩⟩), (.tag, ⟨.equals, ['='], ⟨4, 5⟩⟩)] ++
      (.tag, ⟨.value, ['\'', '>', '\''], ⟨5, 8⟩⟩) ::
        [(.tag, ⟨.tagClose, ['>'], ⟨8, 9⟩⟩), (.content, ⟨.text, ['x'], ⟨9, 10⟩⟩),
          (.content, ⟨.eof, [], ⟨10, 10⟩⟩)] := by
    decide +kernel
  obtain ⟨htokens, hmode, hfault⟩ := mode_of_cuts "<b c='>'>x".toList
  have hunclosed : (lex "<b c='>'>x".toList).unclosed = [] := by decide +kernel
  have hread : read "<b c='>'>x".toList =
      .error ⟨.mismatched ⟨.eof, [], ⟨10, 10⟩⟩ .closeTag, ⟨10, 10⟩⟩ := by
    simp only [read, hunclosed, ← htokens, hcuts]
    rfl
  exact ⟨_, _, _, ⟨⟨['b'], ⟨1, 2⟩⟩, []⟩, ⟨['c'], ⟨3, 4⟩⟩, _, hcuts, rfl, rfl,
    (hmode _ _ _ _ _ hcuts rfl).1, hread, (hfault _ hread).2⟩

end DotAttributes.Markup
