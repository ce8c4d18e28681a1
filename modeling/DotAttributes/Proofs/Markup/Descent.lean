import DotAttributes.Proofs.Markup.Grammar
import DotAttributes.Proofs.Markup.IndexedTokens
import DotAttributes.Proofs.Reader

/-!
# Reading markup labels by recursive descent

The reader of markup labels as functions that call each other: one for the content of a level, one
for a tag, which reads the content of the tag by the first one, and one for the attributes of a tag.
They share a cursor, which stands in front of the tokens that are left and does not move over the
end of the label. In front of them a scanner goes over the label round by round.

Nothing in the recursion says that it ends, so it is done on fuel. It does end since every round
that is followed by another one takes a token (`contentRound?_advances`, `attributeRound_advances`),
and so does every tag (`tag?_takes`): fuel for as many calls and rounds as there are tokens, and one
more, is enough. The functions do in calls and loops what the reader does with a stack of open tags,
so the tree or the fault is the same (`read?_eq`).
-/

namespace DotAttributes.Markup.Descent

open Reader

/-! ## The scanner -/

/-- Goes over a label round by round, from an offset on. -/
def lexFrom? (text : List Char) : Nat → Mode → Nat → Option Indexed.Noted
  | 0, _, _ => none
  | fuel + 1, mode, pos =>
    if pos < Text.size text then do
      let round ← Indexed.scan? text pos mode
      let tail ← lexFrom? text fuel round.mode round.pos
      some ⟨round.token.toList ++ tail.tokens, round.unclosed.toList ++ tail.unclosed⟩
    else some ⟨[⟨.eof, ⟨Text.size text, pos⟩⟩], []⟩

/-- Goes over a label. -/
def lex? (fuel : Nat) (text : List Char) : Option Indexed.Noted := lexFrom? text fuel .content 0

/-! ## The reader -/

section

variable (stop : Nat)

/-- The next one of the tokens that are left; behind all of them there is the end of the label. -/
def upcoming (tokens : List Token) : Token := tokens.headD ⟨.eof, [], Span.empty stop⟩

/-- Looks at the next token. -/
def peek : Reader Token (Located Fault) Token := do
  return upcoming stop (← get)

/-- Takes the next token. The end is looked at only. -/
def bump : Reader Token (Located Fault) Token := do
  let token ← peek stop
  if token.kind ≠ .eof then modify List.tail
  return token

/-- Takes a token of a kind. -/
def expect (kind : TokenKind) (expected : Expected) : Reader Token (Located Fault) Token := do
  let token ← peek stop
  if token.kind = kind then
    modify List.tail
    return token
  else throw ⟨.mismatched token expected, token.span⟩

/-- A round of the attributes of a tag: an attribute, or the end of the tag. The result says
whether the tag closes itself. -/
def attributeRound (opening : Opening) :
    Reader Token (Located Fault) (Round Opening (Opening × Bool)) := do
  let token ← bump stop
  match token.kind with
  | .tagClose => return .last (opening, false)
  | .selfClose => return .last (opening, true)
  | .name =>
    let _ ← expect stop .equals .equals
    let value ← expect stop .value .value
    let attr : Attribute := ⟨token.located, ⟨unquote value.text, value.span⟩⟩
    return .next { opening with attributes := opening.attributes ++ [attr] }
  | _ => throw ⟨.mismatched token .tagEnd, token.span⟩

/-- The attributes of a tag, up to its end. -/
def attributes? : Nat → Opening → Reader Token (Located Fault) (Opening × Bool)
  | 0, _ => stuck
  | fuel + 1, opening => do
    match ← attributeRound stop opening with
    | .next opening => attributes? fuel opening
    | .last result => return result

/-- A tag with its content, which is read by `inner`, and its close tag. -/
def tag? (fuel : Nat) (inner : List Content → Reader Token (Located Fault) (List Content)) :
    Reader Token (Located Fault) Content := do
  let _ ← bump stop
  let name ← expect stop .name .tagName
  let (opening, closesItself) ← attributes? stop fuel ⟨name.located, []⟩
  if closesItself then return .tag opening.name opening.attributes none []
  else
    let children ← inner []
    let _ ← expect stop .closeTagOpen .closeTag
    let close ← expect stop .name .tagName
    let _ ← expect stop .tagClose .tagEnd
    return .tag opening.name opening.attributes (some close.located) children

/-- A round of the content of a level: text, or a tag, or the end of the level. The content of tags
is read by `inner`. -/
def contentRound? (fuel : Nat) (inner : List Content → Reader Token (Located Fault) (List Content))
    (level : List Content) :
    Reader Token (Located Fault) (Round (List Content) (List Content)) := do
  let token ← peek stop
  match token.kind with
  | .text =>
    modify List.tail
    return .next (level ++ [.text (Text.trimAt token.span.start token.text)])
  | .tagOpen => return .next (level ++ [← tag? stop fuel inner])
  | .closeTagOpen | .eof => return .last level
  | _ => throw ⟨.extraneous token .content, token.span⟩

/-- The content of a level, up to a close tag or to the end. -/
def content? : Nat → List Content → Reader Token (Located Fault) (List Content)
  | 0, _ => stuck
  | fuel + 1, level => do
    match ← contentRound? stop fuel (content? fuel) level with
    | .next level => content? fuel level
    | .last level => return level

/-- The content of a label. Behind it there is nothing but the end. -/
def label? (fuel : Nat) : Reader Token (Located Fault) (List Content) := do
  let level ← content? stop fuel []
  let token ← peek stop
  if token.kind = .eof then return level
  else throw ⟨.extraneous token .endOfLabel, token.span⟩

end

/-- Reads a label. What it does not close is reported before anything else. -/
def read? (fuel : Nat) (cs : List Char) : Option (Except (Located Fault) (List Content)) :=
  let lexed := lex cs
  match lexed.unclosed with
  | unclosed :: _ => some (.error (unclosed.map .unclosed))
  | [] => ((label? (Text.size cs) fuel).outcome? lexed.tokens).map Prod.fst

/-! ## Rounds of the scanner -/

open Text in
theorem size_taken_pos (mode : Mode) (c : Char) (cs : List Char) :
    0 < size (nextPiece mode c cs).taken :=
  Nat.pos_of_ne_zero fun hzero => taken_ne_nil mode c cs (size_eq_zero_iff.1 hzero)

open Text in
/-- A round of the scanner takes a character at least, in front of whichever one it starts. -/
theorem exists_scan? (before : List Char) (c : Char) (cs : List Char) (mode : Mode) :
    ∃ round taken rest, Indexed.scan? (before ++ c :: cs) (size before) mode = some round ∧
      c :: cs = taken ++ rest ∧ 0 < size taken ∧ round.pos = size before + size taken := by
  cases mode with
  | content =>
    exact ⟨_, _, _, Indexed.scanContent?_append before c cs,
      (taken_append_rest .content c cs).symm, size_taken_pos .content c cs, rfl⟩
  | tag =>
    have hscan := Indexed.scanTag?_append before (c :: cs)
    have hsplit := List.takeWhile_append_dropWhile (p := isBlank) (l := c :: cs)
    cases hdrop : (c :: cs).dropWhile isBlank with
    | nil =>
      rw [hdrop, List.append_nil] at hsplit
      rw [hdrop, hsplit] at hscan
      have hpos : 0 < size (c :: cs) := Nat.add_pos_left (Char.utf8Size_pos c) (size cs)
      exact ⟨_, c :: cs, [], hscan, (List.append_nil _).symm, hpos, rfl⟩
    | cons d ds =>
      rw [hdrop] at hscan hsplit
      have hpiece : (tagPiece d ds).taken ++ (tagPiece d ds).rest = d :: ds :=
        taken_append_rest .tag d ds
      have hpos : 0 < size (tagPiece d ds).taken := size_taken_pos .tag d ds
      refine ⟨_, (c :: cs).takeWhile isBlank ++ (tagPiece d ds).taken, (tagPiece d ds).rest,
        hscan, ?_, ?_, ?_⟩
      · rw [List.append_assoc, hpiece, hsplit]
      · rw [size_append]
        exact Nat.add_pos_right _ hpos
      · rw [size_append, ← Nat.add_assoc]
        rfl

open Text in
/-- A scanner that checks that each round gets further notes the same, since it does. -/
theorem lexFrom?_of_indexed {text : List Char} {mode : Mode} {pos fuel : Nat}
    {noted : Indexed.Noted} (h : Indexed.lexFrom? text mode pos = some noted)
    (hfuel : size text - pos < fuel) : lexFrom? text fuel mode pos = some noted := by
  induction fuel generalizing mode pos noted with
  | zero => exact absurd hfuel (Nat.not_lt_zero _)
  | succ fuel ih =>
    rw [Indexed.lexFrom?] at h
    rw [lexFrom?]
    split at h
    · next hpos =>
      obtain ⟨round, hround, h⟩ := Option.bind_eq_some_iff.1 h
      split at h
      · next hforward =>
        obtain ⟨tail, htail, h⟩ := Option.bind_eq_some_iff.1 h
        rw [if_pos hpos, hround]
        simp only [Option.bind_eq_bind, Option.bind_some, ih htail (by omega)]
        exact h
      · cases h
    · next hpos =>
      rw [if_neg hpos]
      exact h

open Text in
/-- **The scanner.** It comes to the end of every label. -/
theorem lex?_eq {text : List Char} {fuel : Nat} (hfuel : size text < fuel) :
    lex? fuel text = some (.ofLexed (lex text)) :=
  lexFrom?_of_indexed (Indexed.lex?_eq text) hfuel

open Text in
/-- Each token but the last one takes a character at least. -/
theorem length_tokens_lexFrom_le (mode : Mode) (offset : Nat) (cs : List Char) :
    (lexFrom mode offset cs).tokens.length ≤ size cs + 1 := by
  fun_induction lexFrom mode offset cs with
  | case1 => exact Nat.le_refl 1
  | case2 mode offset c cs piece stop tail ih =>
    have hsize : size (c :: cs) = size piece.taken + size piece.rest := by
      rw [← taken_append_rest mode c cs, size_append]
    have htaken : 0 < size piece.taken := size_taken_pos mode c cs
    have htail : tail.tokens.length ≤ size piece.rest + 1 := ih
    have hnoted : (piece.kind.map fun kind =>
        (⟨kind, piece.taken, ⟨offset, stop⟩⟩ : Token)).toList.length ≤ 1 := by
      cases piece.kind <;> simp
    rw [List.length_append]
    omega

/-! ## What is seen -/

variable {stop : Nat} {tokens rest : List Token} {state next : State} {stack : List OpenTag}
  {level : List Content} {answer : Except (Located Fault) State}

/-- The tokens that the cursor can come to: those up to the first end, which is there if not among
the tokens then behind them. -/
def seen (stop : Nat) : List Token → List Token
  | [] => [upcoming stop []]
  | token :: tokens => if token.kind = .eof then [token] else token :: seen stop tokens

/-- What the reader with a stack makes of the tokens that the cursor can come to. -/
def answerOf (stop : Nat) (state : State) (tokens : List Token) : Except (Located Fault) State :=
  run state (seen stop tokens)

theorem seen_of_ne_eof (h : (upcoming stop tokens).kind ≠ .eof) :
    seen stop tokens = upcoming stop tokens :: seen stop tokens.tail := by
  cases tokens with
  | nil => exact absurd rfl h
  | cons token tokens => exact if_neg h

theorem seen_of_eof (h : (upcoming stop tokens).kind = .eof) :
    seen stop tokens = [upcoming stop tokens] := by
  cases tokens with
  | nil => rfl
  | cons token tokens => exact if_pos h

/-- A step over the next token. -/
theorem answerOf_of_step (hkind : (upcoming stop tokens).kind ≠ .eof)
    (hstep : step state (upcoming stop tokens) = .ok next) :
    answerOf stop state tokens = answerOf stop next tokens.tail := by
  rw [answerOf, seen_of_ne_eof hkind, run, hstep]
  rfl

/-- A step that fails, on the next token or on the end. -/
theorem answerOf_of_step_error {fault : Located Fault}
    (hstep : step state (upcoming stop tokens) = .error fault) :
    answerOf stop state tokens = .error fault := by
  by_cases hkind : (upcoming stop tokens).kind = .eof
  · rw [answerOf, seen_of_eof hkind, run, hstep]
  · rw [answerOf, seen_of_ne_eof hkind, run, hstep]

/-- A step over the end. -/
theorem answerOf_of_eof (hkind : (upcoming stop tokens).kind = .eof)
    (hstep : step state (upcoming stop tokens) = .ok next) :
    answerOf stop state tokens = .ok next := by
  rw [answerOf, seen_of_eof hkind, run, hstep]
  rfl

/-! ## One token -/

theorem peek_outcome? (tokens : List Token) :
    (peek stop).outcome? tokens = some (.ok (upcoming stop tokens), tokens) := rfl

theorem bump_outcome? (h : (upcoming stop tokens).kind ≠ .eof) :
    (bump stop).outcome? tokens = some (.ok (upcoming stop tokens), tokens.tail) := by
  simp only [bump, outcome?_bind, peek_outcome?, Option.bind_some, if_pos h]
  rfl

/-- The end is not taken. -/
theorem bump_outcome?_of_eof (h : (upcoming stop tokens).kind = .eof) :
    (bump stop).outcome? tokens = some (.ok (upcoming stop tokens), tokens) := by
  simp only [bump, outcome?_bind, peek_outcome?, Option.bind_some, if_neg (not_not.2 h)]
  rfl

theorem takes_tail (h : (upcoming stop tokens).kind ≠ .eof) : Takes 1 tokens tokens.tail := by
  cases tokens with
  | nil => exact absurd rfl h
  | cons token tokens => exact Takes.cons token tokens

/-- A token of a kind is taken where the reader with a stack makes a step with such a token, and
fails with any other. -/
theorem expect_follows {expected : Expected} (kind : TokenKind) (next : Token → State)
    (hne : kind ≠ .eof)
    (hstep : step state (upcoming stop tokens) =
      if (upcoming stop tokens).kind = kind then .ok (next (upcoming stop tokens))
      else mismatch (upcoming stop tokens) expected)
    (h : answer = answerOf stop state tokens) :
    Follows 0 (expect stop kind expected) tokens answer
      fun token rest => answer = answerOf stop (next token) rest := by
  refine Follows.of_outcome? (peek_outcome? tokens) (Takes.refl tokens) ?_
  split
  · next hkind =>
    rw [if_pos hkind] at hstep
    have hkind : (upcoming stop tokens).kind ≠ .eof := hkind ▸ hne
    refine Follows.of_outcome? rfl ((takes_tail hkind).mono (Nat.zero_le 1)) ?_
    exact Follows.pure (h.trans (answerOf_of_step hkind hstep))
  · next hkind =>
    rw [if_neg hkind] at hstep
    exact Follows.throw (h.trans (answerOf_of_step_error hstep))

/-! ## The attributes of a tag -/

/-- The state behind the attributes of a tag. -/
def behindAttributes (stack : List OpenTag) (level : List Content) : Opening × Bool → State
  | (opening, true) => ⟨stack, level ++ [.tag opening.name opening.attributes none []], .content⟩
  | (opening, false) => ⟨⟨opening, level⟩ :: stack, [], .content⟩

/-- A round takes an attribute, or the end of the tag. -/
theorem attributeRound_follows (opening : Opening)
    (h : answer = answerOf stop ⟨stack, level, .attributes opening⟩ tokens) :
    Follows 0 (attributeRound stop opening) tokens answer fun round rest =>
      match round with
      | .next opening =>
        Takes 1 tokens rest ∧ answer = answerOf stop ⟨stack, level, .attributes opening⟩ rest
      | .last result => answer = answerOf stop (behindAttributes stack level result) rest := by
  by_cases heof : (upcoming stop tokens).kind = .eof
  · refine Follows.of_outcome? (bump_outcome?_of_eof heof) (Takes.refl tokens) ?_
    simp only [heof]
    refine Follows.throw (h.trans (answerOf_of_step_error ?_))
    simp only [step, stepAttributes, heof]
    rfl
  have htakes := takes_tail heof
  refine Follows.of_outcome? (bump_outcome? heof) (htakes.mono (Nat.zero_le 1)) ?_
  cases hkind : (upcoming stop tokens).kind with
  | tagClose =>
    refine Follows.pure (h.trans (answerOf_of_step heof ?_))
    simp only [step, stepAttributes, hkind]
    rfl
  | selfClose =>
    refine Follows.pure (h.trans (answerOf_of_step heof ?_))
    simp only [step, stepAttributes, hkind]
    rfl
  | name =>
    have hname : answer = answerOf stop
        ⟨stack, level, .equals opening (upcoming stop tokens).located⟩ tokens.tail := by
      refine h.trans (answerOf_of_step heof ?_)
      simp only [step, stepAttributes, hkind]
    refine Follows.bind (expect_follows .equals
      (fun _ => ⟨stack, level, .value opening (upcoming stop tokens).located⟩)
      (by decide) rfl hname) fun equals rest hequals h => ?_
    refine Follows.bind (expect_follows .value
      (fun value => ⟨stack, level, .attributes { opening with attributes := opening.attributes ++
        [⟨(upcoming stop tokens).located, ⟨unquote value.text, value.span⟩⟩] }⟩)
      (by decide) rfl h) fun value left hvalue h => ?_
    exact Follows.pure ⟨(htakes.trans hequals).trans hvalue, h⟩
  | text | tagOpen | closeTagOpen | equals | value | unknown | eof =>
    refine Follows.throw (h.trans (answerOf_of_step_error ?_))
    simp only [step, stepAttributes, hkind]
    rfl

/-- The rounds come to the end of the tag, since each of them that is not the last takes a token. -/
theorem attributes_follows {fuel : Nat} (opening : Opening) (hfuel : tokens.length < fuel)
    (h : answer = answerOf stop ⟨stack, level, .attributes opening⟩ tokens) :
    Follows 0 (attributes? stop fuel opening) tokens answer fun result rest =>
      answer = answerOf stop (behindAttributes stack level result) rest := by
  induction fuel generalizing tokens opening with
  | zero => exact absurd hfuel (Nat.not_lt_zero _)
  | succ fuel ih =>
    rw [attributes?]
    refine Follows.bind (attributeRound_follows opening h) fun round rest _ hround => ?_
    cases round with
    | next opening =>
      have hlength := hround.1.length_add_le
      exact ih opening (by omega) hround.2
    | last result => exact Follows.pure hround

/-! ## The content of a level -/

/-- What is left begins with a close tag, or is the end. -/
def EndsLevel (stop : Nat) (tokens : List Token) : Prop :=
  (upcoming stop tokens).kind = .closeTagOpen ∨ (upcoming stop tokens).kind = .eof

/-- Behind the content of a tag there is the close tag of the tag, or it is missed. -/
theorem EndsLevel.step_eq {opened : OpenTag} (h : EndsLevel stop tokens) :
    step ⟨opened :: stack, level, .content⟩ (upcoming stop tokens) =
      if (upcoming stop tokens).kind = .closeTagOpen then
        .ok ⟨opened :: stack, level, .closeName⟩
      else mismatch (upcoming stop tokens) .closeTag := by
  rcases h with hkind | hkind
  · simp only [step, stepContent, hkind]
    rfl
  · simp only [step, stepContent, hkind]
    rfl

/-- Content is read as it should be, up to the end of its level. -/
def ContentFollows (stop : Nat)
    (inner : List Content → Reader Token (Located Fault) (List Content)) (tokens : List Token) :
    Prop :=
  ∀ stack level answer, answer = answerOf stop ⟨stack, level, .content⟩ tokens →
    Follows 0 (inner level) tokens answer fun level rest =>
      answer = answerOf stop ⟨stack, level, .content⟩ rest ∧ EndsLevel stop rest

variable {fuel : Nat} {inner : List Content → Reader Token (Located Fault) (List Content)}

/-- A tag is read as it should be, and at least its first token is taken, if what is behind that
token is read as it should be. -/
theorem tag_follows (hkind : (upcoming stop tokens).kind ≠ .eof) (hfuel : tokens.length ≤ fuel)
    (hcontent : ∀ rest, Takes 1 tokens rest → ContentFollows stop inner rest)
    (h : answer = answerOf stop ⟨stack, level, .tagName⟩ tokens.tail) :
    Follows 1 (tag? stop fuel inner) tokens answer fun tag rest =>
      answer = answerOf stop ⟨stack, level ++ [tag], .content⟩ rest := by
  have htakes := takes_tail hkind
  refine Follows.of_outcome? (bump_outcome? hkind) htakes ?_
  refine Follows.bind (expect_follows .name
    (fun name => ⟨stack, level, .attributes ⟨name.located, []⟩⟩) (by decide) rfl h)
    fun name rest hname h => ?_
  have hlength := (htakes.trans hname).length_add_le
  refine Follows.bind (attributes_follows ⟨name.located, []⟩ (by omega) h)
    fun (opening, closesItself) behind hattributes h => ?_
  cases closesItself with
  | true => exact Follows.pure h
  | false =>
    refine Follows.bind (hcontent behind ((htakes.trans hname).trans hattributes) _ _ _ h)
      fun children left _ h => ?_
    refine Follows.bind (expect_follows .closeTagOpen
      (fun _ => ⟨⟨opening, level⟩ :: stack, children, .closeName⟩) (by decide) h.2.step_eq h.1)
      fun _ rest _ h => ?_
    refine Follows.bind (expect_follows .name
      (fun close => ⟨⟨opening, level⟩ :: stack, children, .closeEnd close.located⟩)
      (by decide) rfl h) fun close rest _ h => ?_
    refine Follows.bind (expect_follows .tagClose
      (fun _ => closeTag close.located children (⟨opening, level⟩ :: stack))
      (by decide) rfl h) fun _ rest _ h => ?_
    exact Follows.pure h

/-- A round of the content is read as it should be, and takes a token if it is not the last one. -/
theorem contentRound_follows (hfuel : tokens.length ≤ fuel)
    (hcontent : ∀ rest, Takes 1 tokens rest → ContentFollows stop inner rest)
    (h : answer = answerOf stop ⟨stack, level, .content⟩ tokens) :
    Follows 0 (contentRound? stop fuel inner level) tokens answer fun round rest =>
      match round with
      | .next level => Takes 1 tokens rest ∧ answer = answerOf stop ⟨stack, level, .content⟩ rest
      | .last level =>
        answer = answerOf stop ⟨stack, level, .content⟩ rest ∧ EndsLevel stop rest := by
  refine Follows.of_outcome? (peek_outcome? tokens) (Takes.refl tokens) ?_
  cases hkind : (upcoming stop tokens).kind with
  | text =>
    have hne : (upcoming stop tokens).kind ≠ .eof := by
      rw [hkind]
      decide
    have htakes := takes_tail hne
    refine Follows.of_outcome? rfl (htakes.mono (Nat.zero_le 1)) (Follows.pure ⟨htakes, ?_⟩)
    refine h.trans (answerOf_of_step hne ?_)
    simp only [step, stepContent, hkind]
  | tagOpen =>
    have hne : (upcoming stop tokens).kind ≠ .eof := by
      rw [hkind]
      decide
    have hname : answer = answerOf stop ⟨stack, level, .tagName⟩ tokens.tail := by
      refine h.trans (answerOf_of_step hne ?_)
      simp only [step, stepContent, hkind]
    have htag : Follows 0 (tag? stop fuel inner) tokens answer fun tag rest =>
        Takes 1 tokens rest ∧ answer = answerOf stop ⟨stack, level ++ [tag], .content⟩ rest :=
      (tag_follows hne hfuel hcontent hname).weaken (Nat.zero_le 1) fun _ _ htakes h => ⟨htakes, h⟩
    exact Follows.bind htag fun _ _ _ h => Follows.pure h
  | closeTagOpen => exact Follows.pure ⟨h, Or.inl hkind⟩
  | eof => exact Follows.pure ⟨h, Or.inr hkind⟩
  | name | equals | value | tagClose | selfClose | unknown =>
    refine Follows.throw (h.trans (answerOf_of_step_error ?_))
    simp only [step, stepContent, hkind]
    rfl

/-- **Content.** The calls and the rounds come to an end, since each call is made behind a token
that the one around it has taken, and each round that is not the last takes one. -/
theorem contentFollows (hfuel : tokens.length < fuel) :
    ContentFollows stop (content? stop fuel) tokens := by
  induction fuel generalizing tokens with
  | zero => exact absurd hfuel (Nat.not_lt_zero _)
  | succ fuel ih =>
    -- a tag or another round is behind a token that has been taken, so less fuel is enough
    have hbehind (rest : List Token) (htakes : Takes 1 tokens rest) :
        ContentFollows stop (content? stop fuel) rest := by
      have hlength := htakes.length_add_le
      exact ih (by omega)
    intro stack level answer h
    rw [content?]
    refine Follows.bind (contentRound_follows (Nat.le_of_lt_succ hfuel) hbehind h)
      fun round rest _ hround => ?_
    cases round with
    | next level => exact hbehind rest hround.1 stack level answer hround.2
    | last level => exact Follows.pure hround

/-! ## Labels -/

/-- A label is read as it should be. -/
theorem label_follows (hfuel : tokens.length < fuel) (h : answer = answerOf stop .start tokens) :
    Follows 0 (label? stop fuel) tokens answer fun level _ =>
      answer = .ok ⟨[], level, .content⟩ := by
  refine Follows.bind (contentFollows hfuel [] [] answer h) fun level rest _ h => ?_
  refine Follows.of_outcome? (peek_outcome? rest) (Takes.refl rest) ?_
  rcases h.2 with hkind | hkind
  · rw [if_neg (by simp [hkind])]
    refine Follows.throw (h.1.trans (answerOf_of_step_error ?_))
    simp only [step, stepContent, hkind]
    rfl
  · rw [if_pos hkind]
    refine Follows.pure (h.1.trans (answerOf_of_eof hkind ?_))
    simp only [step, stepContent, hkind]
    rfl

theorem seen_append {front : List Token} (hfront : ∀ token ∈ front, token.kind ≠ .eof)
    {last : Token} (hlast : last.kind = .eof) : seen stop (front ++ [last]) = front ++ [last] := by
  induction front with
  | nil => exact if_pos hlast
  | cons token front ih =>
    obtain ⟨htoken, hfront⟩ := List.forall_mem_cons.1 hfront
    rw [List.cons_append, seen, if_neg htoken, ih hfront]

/-- **Markup labels by recursive descent.** The functions come back, whatever the label, with what
the reader with a stack makes of it. -/
theorem read?_eq {cs : List Char} (hfuel : (lex cs).tokens.length < fuel) :
    read? fuel cs = some (read cs) := by
  simp only [read?, read]
  cases (lex cs).unclosed with
  | cons unclosed rest => rfl
  | nil =>
    obtain ⟨front, last, hlex, hlast, hfront⟩ := exists_tokens_lexFrom .content 0 cs
    have hanswer : run .start (lex cs).tokens =
        answerOf (Text.size cs) .start (lex cs).tokens := by
      rw [answerOf, lex, hlex, seen_append hfront hlast]
    obtain ⟨outcome, rest, houtcome, -, h⟩ := label_follows hfuel hanswer
    simp only [houtcome]
    cases outcome with
    | ok level =>
      simp only at h
      rw [h]
      rfl
    | error fault =>
      simp only at h
      rw [h]
      rfl

/-! ## Calls and rounds -/

theorem contentFollows_of_takes (hfuel : tokens.length ≤ fuel) (rest : List Token)
    (htakes : Takes 1 tokens rest) : ContentFollows stop (content? stop fuel) rest := by
  have hlength := htakes.length_add_le
  exact contentFollows (by omega)

/-- A tag is read to its end, and its first token at least is taken. -/
theorem tag?_takes (hkind : (upcoming stop tokens).kind ≠ .eof) (hfuel : tokens.length ≤ fuel) :
    ∃ outcome rest, (tag? stop fuel (content? stop fuel)).outcome? tokens = some (outcome, rest) ∧
      Takes 1 tokens rest := by
  obtain ⟨outcome, rest, houtcome, htakes, -⟩ :=
    tag_follows hkind hfuel (contentFollows_of_takes hfuel)
      (rfl : answerOf stop ⟨[], [], .tagName⟩ tokens.tail = _)
  exact ⟨outcome, rest, houtcome, htakes⟩

theorem contentRound?_advances (level : List Content) (hfuel : tokens.length ≤ fuel) :
    Advances (contentRound? stop fuel (content? stop fuel) level) tokens :=
  (contentRound_follows hfuel (contentFollows_of_takes hfuel)
    (rfl : answerOf stop ⟨[], level, .content⟩ tokens = _)).advances fun _ _ h => h.1

theorem attributeRound_advances (opening : Opening) (tokens : List Token) :
    Advances (attributeRound stop opening) tokens :=
  (attributeRound_follows opening
    (rfl : answerOf stop ⟨[], [], .attributes opening⟩ tokens = _)).advances fun _ _ h => h.1

end DotAttributes.Markup.Descent
