import DotAttributes.Proofs.Record.Grammar
import DotAttributes.Proofs.Record.Tiling

/-!
# Where the faults of a record label point

A label that cannot be read has a mark missing at its end, or a token too many, which the fault
quotes whole. A mark is one character. A text is too much only right behind the brace that closes a
group (`stepText_of_isReachedBy`): no text stands behind text, and what a field has come to says
what its last token was (`isReachedBy_of_run`). So a fault points at one character, or at the end,
unless more than one character of text follows a group (`pointsAtCharacter_iff`).
-/

namespace DotAttributes.Record

open Text

/-- A fault points at the character it quotes, which is one too many, or at the end of the label,
where a mark is missing. -/
def PointsAtCharacter (cs : List Char) (fault : Located Fault) : Prop :=
  (∃ c expected, StandsAt 0 cs fault.span [c] ∧ fault.item.detail =
      "extraneous input '" ++ String.ofList [c] ++ "' expecting " ++ Expected.wording expected) ∨
    fault.span = Span.empty (size cs) ∧
      (fault.item.detail = "missing '\x7d' at '<EOF>'" ∨
        fault.item.detail = "missing '>' at '<EOF>'")

/-- A token of text, not of blanks, right behind the brace that closes a group. -/
def IsBehindGroup (cs : List Char) (token : Token) : Prop :=
  ∃ front brace after, tokens cs = front ++ brace :: token :: after ∧
    brace.kind = .mark .rightBrace ∧ token.kind.isText = true ∧ token.isBlank = false

/-! ## The last token -/

/-- What a field has come to tells the last token: text if it ends with a name, a text, or blanks
behind a group, and a brace if it ends with a group. -/
def Place.IsReachedBy (last : Option Token) : Place → Prop
  | .port _ (some _) | .afterText .. | .afterGroup _ true =>
    ∃ token ∈ last, token.kind.isText = true
  | .afterGroup _ false => ∃ token ∈ last, token.kind = .mark .rightBrace
  | .start | .blank | .port _ none | .afterPort _ => True

variable {cs : List Char} {state state' : State} {token : Token} {last : Option Token}
  {fault : Located Fault}

theorem isReachedBy_of_step (h : step state token = .ok state') :
    state'.place.IsReachedBy (some token) := by
  cases step_eq_ok_iff.1 h with
  | blank | openPort | closePort | bar | openGroup => exact trivial
  | text hkind => exact ⟨token, rfl, hkind⟩
  | textAfterPort _ hkind => exact ⟨token, rfl, hkind⟩
  | blankAfterGroup _ hblank => exact ⟨token, rfl, isText_of_isBlank hblank⟩
  | name _ hkind => exact ⟨token, rfl, hkind⟩
  | closeGroup _ hkind => exact ⟨token, rfl, hkind⟩

theorem getLast?_cons_or (token : Token) (tokens : List Token) (last : Option Token) :
    (token :: tokens).getLast?.or last = tokens.getLast?.or (some token) := by
  rw [List.getLast?_cons]
  cases tokens.getLast? <;> rfl

theorem isReachedBy_of_run {tokens : List Token} (h : run state tokens = .ok state')
    (hstate : state.place.IsReachedBy last) :
    state'.place.IsReachedBy (tokens.getLast?.or last) := by
  induction tokens generalizing state last with
  | nil =>
    cases h
    exact hstate
  | cons token tokens ih =>
    rw [run] at h
    split at h
    · next hstep =>
      rw [getLast?_cons_or]
      exact ih h (isReachedBy_of_step hstep)
    · cases h

/-! ## One token too many -/

/-- A text behind a token that is not text is too much only behind a group. -/
theorem stepText_of_isReachedBy (hstate : state.place.IsReachedBy last)
    (hlast : ∀ front ∈ last, front.kind.isText = false) (h : stepText state token = .error fault) :
    fault = ⟨.extraneous token .bar, token.span⟩ ∧ token.isBlank = false ∧
      ∃ brace ∈ last, brace.kind = .mark .rightBrace := by
  have hnot : ¬ ∃ front ∈ last, front.kind.isText = true := by
    rintro ⟨front, hmem, htext⟩
    rw [hlast front hmem] at htext
    cases htext
  obtain ⟨stack, fields, place⟩ := state
  cases place with
  | start | blank | afterPort => cases h
  | port _ name =>
    cases name with
    | none => cases h
    | some => exact absurd hstate hnot
  | afterText => exact absurd hstate hnot
  | afterGroup _ blank =>
    cases blank with
    | true => exact absurd hstate hnot
    | false =>
      simp only [stepText] at h
      split at h
      · cases h
      · next hblank =>
        cases h
        exact ⟨rfl, by simpa using hblank, hstate⟩

/-- A token too many is a mark, or stands behind a group. -/
theorem isBehindGroup_of_step_error {front after : List Token}
    (htokens : tokens cs = front ++ token :: after) (hrun : run .start front = .ok state)
    (hstep : step state token = .error fault) (hkind : token.kind.isText = true) :
    fault = ⟨.extraneous token .bar, token.span⟩ ∧ IsBehindGroup cs token := by
  have hchain : (front ++ token :: after).IsChain Token.IsApart := by
    rw [← htokens]
    exact isChain_joinAtoms 0 _
  have hlast : ∀ before ∈ front.getLast?, before.kind.isText = false := fun before hmem =>
    Bool.eq_false_iff.2 fun htext =>
      (List.isChain_append.1 hchain).2.2 before hmem token rfl ⟨htext, hkind⟩
  have hstate : state.place.IsReachedBy front.getLast? := by
    have hstart : state.place.IsReachedBy (front.getLast?.or none) :=
      isReachedBy_of_run hrun trivial
    rwa [Option.or_none] at hstart
  rw [step_of_isText hkind] at hstep
  obtain ⟨hfault, hblank, brace, hmem, hbrace⟩ :=
    stepText_of_isReachedBy hstate hlast hstep
  obtain ⟨front, rfl⟩ := List.getLast?_eq_some_iff.1 hmem
  rw [List.append_assoc, List.singleton_append] at htokens
  exact ⟨hfault, front, brace, after, htokens, hbrace, hkind, hblank⟩

/-! ## A whole label -/

/-- The faults of labels: a mark that is missing at the end, a mark too many, or a text behind a
group. -/
inductive IsFault (cs : List Char) : Located Fault → Prop
  | missing {mark : Mark} (closes : mark = .rightBrace ∨ mark = .rightAngle) :
      IsFault cs ⟨.missing mark, Span.empty (size cs)⟩
  | mark {token : Token} {mark : Mark} (expected : Expected) (mem : token ∈ tokens cs)
      (kind : token.kind = .mark mark) : IsFault cs ⟨.extraneous token expected, token.span⟩
  | text {token : Token} (behind : IsBehindGroup cs token) :
      IsFault cs ⟨.extraneous token .bar, token.span⟩

theorem isFault_of_read_error (h : read cs = .error fault) : IsFault cs fault := by
  unfold read at h
  split at h
  · obtain ⟨mark, -, hmark, rfl, -⟩ := exists_marks_of_finish_error h
    exact .missing hmark
  · next hrun =>
    cases h
    obtain ⟨front, token, after, state, htokens, hfront, hstep⟩ := exists_token_of_run_error hrun
    cases hkind : token.kind with
    | mark mark =>
      obtain ⟨expected, rfl⟩ := exists_expected_of_step_error hstep
      have hmem : token ∈ tokens cs := by
        rw [htokens]
        exact List.mem_append_right _ List.mem_cons_self
      exact .mark expected hmem hkind
    | text | trailingBackslash =>
      obtain ⟨rfl, hbehind⟩ :=
        isBehindGroup_of_step_error htokens hfront hstep (by rw [hkind]; rfl)
      exact .text hbehind

theorem IsBehindGroup.mem (h : IsBehindGroup cs token) : token ∈ tokens cs := by
  obtain ⟨front, brace, after, htokens, -⟩ := h
  rw [htokens]
  exact List.mem_append_right _ (List.mem_cons_of_mem _ List.mem_cons_self)

/-- What is too much is a token of the label. -/
theorem IsFault.mem {found : Token} {expected : Expected} (h : IsFault cs fault)
    (hitem : fault.item = .extraneous found expected) :
    found ∈ tokens cs ∧ fault.span = found.span := by
  cases h with
  | missing => cases hitem
  | mark _ hmem =>
    cases hitem
    exact ⟨hmem, rfl⟩
  | text hbehind =>
    cases hitem
    exact ⟨hbehind.mem, rfl⟩

/-- **Faults.** A label that cannot be read lacks a mark at its end, or has a mark or a text behind
a group too many. A token too many stands at the place of the fault, which quotes it. The fault
points at a single character, or at the end, unless it is at more than one character of text behind
a group. -/
theorem pointsAtCharacter_iff (h : read cs = .error fault) :
    IsFault cs fault ∧
      (∀ found expected, fault.item = .extraneous found expected →
        StandsAt 0 cs fault.span found.text ∧ fault.item.detail =
          "extraneous input '" ++ String.ofList found.text ++ "' expecting " ++ expected.wording) ∧
      (PointsAtCharacter cs fault ↔
        ∀ token, IsBehindGroup cs token → fault.span = token.span → token.text.length = 1) := by
  have hfault := isFault_of_read_error h
  have hquotes : ∀ found expected, fault.item = .extraneous found expected →
      StandsAt 0 cs fault.span found.text ∧ fault.item.detail =
        "extraneous input '" ++ String.ofList found.text ++ "' expecting " ++ expected.wording := by
    intro found expected hitem
    obtain ⟨hmem, hspan⟩ := hfault.mem hitem
    rw [hspan, hitem]
    exact ⟨(standsAt_tokens cs found hmem).1, rfl⟩
  refine ⟨hfault, hquotes, fun hpoints token hbehind hspan => ?_, fun hsingle => ?_⟩
  · -- what stands at the span of the token is not empty, so it is the character
    have hstands := (standsAt_tokens cs token hbehind.mem).1
    have hlt := hstands.start_lt_stop (text_ne_nil_of_mem_joinAtoms 0 token hbehind.mem)
    rcases hpoints with ⟨c, -, hc, -⟩ | ⟨hempty, -⟩
    · rw [hspan, ← slice?_eq_some_iff] at hc
      rw [← slice?_eq_some_iff, hc] at hstands
      rw [← Option.some.inj hstands, List.length_singleton]
    · rw [← hspan, hempty] at hlt
      exact absurd hlt (Nat.lt_irrefl _)
  · cases hfault with
    | missing hmark =>
      refine .inr ⟨rfl, ?_⟩
      rcases hmark with rfl | rfl
      · exact .inl rfl
      · exact .inr rfl
    | @mark token mark expected hmem hkind =>
      obtain ⟨hstands, hdetail⟩ := hquotes token expected rfl
      rw [(standsAt_tokens cs token hmem).2 mark hkind] at hstands hdetail
      exact .inl ⟨mark.char, expected, hstands, hdetail⟩
    | @text token hbehind =>
      obtain ⟨hstands, hdetail⟩ := hquotes token .bar rfl
      obtain ⟨c, hc⟩ := List.length_eq_one_iff.1 (hsingle token hbehind rfl)
      rw [hc] at hstands hdetail
      exact .inl ⟨c, .bar, hstands, hdetail⟩

/-- One character behind a group. -/
theorem pointsAtCharacter_iff_characterBehindGroup :
    ∃ fault, read ['{', 'a', '}', 'b'] = .error fault ∧ fault.span = ⟨3, 4⟩ ∧
      PointsAtCharacter ['{', 'a', '}', 'b'] fault := by
  have hread : read ['{', 'a', '}', 'b'] =
      .error ⟨.extraneous ⟨.text, ['b'], ⟨3, 4⟩⟩ .bar, ⟨3, 4⟩⟩ := rfl
  have hlength : ∀ token ∈ tokens ['{', 'a', '}', 'b'], token.text.length = 1 := by decide
  exact ⟨_, hread, rfl, (pointsAtCharacter_iff hread).2.2.2 fun token hbehind _ =>
    hlength token hbehind.mem⟩

/-- Two characters behind a group are quoted together, at the place of both. -/
theorem not_pointsAtCharacter_textBehindGroup :
    ∃ fault, read ['{', 'a', '}', 'b', 'c'] = .error fault ∧ fault.span = ⟨3, 5⟩ ∧
      fault.item.detail = "extraneous input 'bc' expecting '|'" ∧
      ¬ PointsAtCharacter ['{', 'a', '}', 'b', 'c'] fault := by
  refine ⟨⟨.extraneous ⟨.text, ['b', 'c'], ⟨3, 5⟩⟩ .bar, ⟨3, 5⟩⟩, rfl, rfl, by decide, ?_⟩
  rintro (⟨c, -, hc, -⟩ | ⟨hempty, -⟩)
  · have hslice : slice? ['{', 'a', '}', 'b', 'c'] ⟨3, 5⟩ = some ['b', 'c'] := by decide
    rw [slice?_eq_some_iff.2 hc] at hslice
    cases hslice
  · cases hempty

end DotAttributes.Record
