import DotAttributes.Proofs.Reader
import DotAttributes.Proofs.Record.Steps

/-!
# Reading record labels by recursive descent

The reader of record labels as functions that call each other: one for a label, which reads field
after field, and one for a field, which reads a group by the first one and a leaf by itself. They
share a cursor, which stands in front of the tokens that are left. Blanks in front of a field may
belong to a group or to a leaf, so the cursor goes back over them if there is no group, and an empty
leaf takes nothing at all.

Nothing in the recursion says that it ends, so it is done on fuel. It does end since a group is read
behind its brace only and another field behind a bar only (`field?_outcome?`,
`fieldsRound?_advances`): fuel for as many calls and rounds as there are tokens, and one more, is
enough. The functions do in calls and loops what the reader does with a stack of open groups, so the
fields or the fault are the same (`read?_eq`).
-/

namespace DotAttributes.Record.Descent

open Reader

/-! ## The reader -/

section

variable (stop : Nat)

/-- Takes the next token. -/
def bump : Reader Token (Located Fault) (Option Token) := do
  let tokens ← get
  set tokens.tail
  return tokens.head?

/-- Takes a token of text. -/
def takeText : Reader Token (Located Fault) (Option Token) := do
  let tokens ← get
  let text := tokens.head?.filter fun token => token.kind.isText
  if text.isSome then set tokens.tail
  return text

/-- Takes blanks. -/
def skipBlank : Reader Token (Located Fault) Unit := do
  let tokens ← get
  if tokens.head?.any Token.isBlank then set tokens.tail

/-- Takes the brace that opens a group, with blanks in front of it. If there is none the cursor
goes back. -/
def openGroup : Reader Token (Located Fault) (Option Token) := do
  let checkpoint ← get
  skipBlank
  let tokens ← get
  let brace := tokens.head?.filter fun token => token.kind = .mark .leftBrace
  set (if brace.isSome then tokens.tail else checkpoint)
  return brace

/-- Takes the brace that closes a group, with blanks behind it. -/
def closeGroup (brace : Token) (label : List Field) : Reader Token (Located Fault) Field := do
  match ← bump with
  | some close =>
    if close.kind = .mark .rightBrace then
      skipBlank
      return .group label ⟨brace.span.start, close.span.stop⟩
    else throw ⟨.missing .rightBrace, Span.empty stop⟩
  | none => throw ⟨.missing .rightBrace, Span.empty stop⟩

/-- The bracket that closes a port. -/
def closePort (bracket : Span) (name : Option Token) : Reader Token (Located Fault) PortMark := do
  match ← bump with
  | some close =>
    if close.kind = .mark .rightAngle then return portOf bracket name close.span
    else throw ⟨.extraneous close .rightAngle, close.span⟩
  | none => throw ⟨.missing .rightAngle, Span.empty stop⟩

/-- A port behind its bracket. -/
def port (bracket : Token) : Reader Token (Located Fault) PortMark := do
  closePort stop bracket.span (← takeText)

/-- A port, if there is one. -/
def optionalPort : Reader Token (Located Fault) (Option PortMark) := do
  let tokens ← get
  match tokens.head?.filter fun token => token.kind = .mark .leftAngle with
  | some bracket =>
    set tokens.tail
    return some (← port stop bracket)
  | none => return none

/-- Where the next token starts; behind all of them it is the end of the label. -/
def startOf (tokens : List Token) : Nat :=
  (tokens.head?.map fun token => token.span.start).getD stop

/-- The text of a leaf behind its port. -/
def leafText (port : Option PortMark) : Reader Token (Located Fault) Field := do
  let token ← takeText
  let next := startOf stop (← get)
  let text := (token.map fun token => Text.trimAt token.span.start token.text).getD
    ⟨[], Span.empty next⟩
  return .leaf ⟨port.map PortMark.port, text.item, leafSpan next port text⟩

/-- A leaf: a port and text, both of which may be missing. -/
def leaf : Reader Token (Located Fault) Field := do
  skipBlank
  leafText stop (← optionalPort stop)

/-- A field. The label of a group is read by `inner`. -/
def field? (inner : Reader Token (Located Fault) (List Field)) :
    Reader Token (Located Fault) Field := do
  match ← openGroup with
  | some brace => closeGroup stop brace (← inner)
  | none => leaf stop

/-- A round of the fields of a label: another field behind a bar, or the end of the label. One that
is nested in a group ends in front of the brace that closes the group. -/
def fieldsRound? (inner : Reader Token (Located Fault) (List Field)) (nested : Bool)
    (fields : List Field) : Reader Token (Located Fault) (Round (List Field) (List Field)) := do
  let tokens ← get
  match tokens.head? with
  | some token =>
    match token.kind with
    | .mark .bar =>
      set tokens.tail
      return .next (fields ++ [← field? stop inner])
    | .mark .rightBrace =>
      if nested then return .last fields else throw ⟨.extraneous token .endOfLabel, token.span⟩
    | _ => throw ⟨.extraneous token .bar, token.span⟩
  | none => return .last fields

/-- The fields of a label behind its first ones. -/
def fields? (inner : Reader Token (Located Fault) (List Field)) (nested : Bool) :
    Nat → List Field → Reader Token (Located Fault) (List Field)
  | 0, _ => stuck
  | fuel + 1, fields => do
    match ← fieldsRound? stop inner nested fields with
    | .next fields => fields? inner nested fuel fields
    | .last label => return label

/-- A label. -/
def label? : Nat → Bool → Reader Token (Located Fault) (List Field)
  | 0, _ => stuck
  | fuel + 1, nested => do
    let first ← field? stop (label? fuel true)
    fields? stop (label? fuel true) nested (fuel + 1) [first]

/-- A whole label. Behind it there is nothing. -/
def whole? (fuel : Nat) : Reader Token (Located Fault) (List Field) := do
  let label ← label? stop fuel false
  match (← get).head? with
  | some token => throw ⟨.extraneous token .endOfLabel, token.span⟩
  | none => return label

end

/-- Reads a label. -/
def read? (fuel : Nat) (cs : List Char) : Option (Except (Located Fault) (List Field)) :=
  ((whole? (Text.size cs) fuel).outcome? (tokens cs)).map Prod.fst

/-! ## What is left -/

variable {stop : Nat} {tokens rest : List Token} {token : Token} {state next : State}
  {stack : List OpenGroup} {fields : List Field} {place : Place} {field : Field}
  {answer : Except (Located Fault) (List Field)}

/-- What the reader with a stack makes of the tokens that are left. -/
def answerOf (stop : Nat) (state : State) (tokens : List Token) :
    Except (Located Fault) (List Field) :=
  match run state tokens with
  | .ok state => state.finish stop
  | .error fault => .error fault

theorem answerOf_of_stepsTo (h : StepsTo token state next) :
    answerOf stop state (token :: rest) = answerOf stop next rest := by
  rw [answerOf, run, step_eq_ok_iff.2 h]
  rfl

theorem answerOf_of_step_error {fault : Located Fault} (h : step state token = .error fault) :
    answerOf stop state (token :: rest) = .error fault := by
  rw [answerOf, run, h]

/-- The tokens behind blanks. -/
def behindBlank (tokens : List Token) : List Token :=
  if tokens.head?.any Token.isBlank then tokens.tail else tokens

/-- Blanks are passed, or there are none. -/
theorem answerOf_behindBlank {passed : State}
    (hpassed : ∀ token : Token, token.isBlank = true → StepsTo token state passed) :
    answerOf stop state tokens = answerOf stop passed (behindBlank tokens) ∨
      answerOf stop state tokens = answerOf stop state (behindBlank tokens) ∧
        ∀ token ∈ (behindBlank tokens).head?, token.isBlank = false := by
  unfold behindBlank
  cases tokens with
  | nil => exact Or.inr ⟨rfl, nofun⟩
  | cons token rest =>
    split
    · next hblank => exact Or.inl (answerOf_of_stepsTo (hpassed token hblank))
    · next hblank =>
      refine Or.inr ⟨rfl, fun token htoken => ?_⟩
      cases htoken
      exact Bool.eq_false_iff.2 hblank

/-- Behind the blanks in front of it a field has still to begin. -/
theorem exists_isFresh (h : answer = answerOf stop ⟨stack, fields, .start⟩ tokens) :
    ∃ place : Place, place.isFresh = true ∧
      answer = answerOf stop ⟨stack, fields, place⟩ (behindBlank tokens) ∧
      (place = .start → ∀ token ∈ (behindBlank tokens).head?, token.isBlank = false) := by
  rcases answerOf_behindBlank fun token hblank => StepsTo.blank hblank with
    hpassed | ⟨hstart, hhead⟩
  · exact ⟨.blank, rfl, h.trans hpassed, nofun⟩
  · exact ⟨.start, rfl, h.trans hstart, fun _ => hhead⟩

/-- A field that has come to `place` ends in front of the tokens that are left: a bar, a brace that
closes a group, the end, or a token that is one too many. -/
structure EndsField (stop : Nat) (place : Place) (field : Field) (rest : List Token) : Prop where
  field_eq : place.field? (startOf stop rest) = some field
  follow : ∀ token ∈ rest.head?, token.kind = .mark .bar ∨ token.kind = .mark .rightBrace ∨
    ∀ stack fields, step ⟨stack, fields, place⟩ token = surplus token .bar

/-- Where nothing is left behind a field the label ends, unless a group is left open. -/
theorem EndsField.answerOf_nil (h : EndsField stop place field []) :
    answerOf stop ⟨stack, fields, place⟩ [] =
      if stack.isEmpty then .ok (fields ++ [field])
      else .error ⟨.missing .rightBrace, Span.empty stop⟩ := by
  have hfield : place.field? stop = some field := h.field_eq
  show State.finish stop _ = _
  simp only [State.finish, hfield]

/-- A field ends in front of anything but a text that belongs to it. If nothing has been read of it
it must not begin with a group or a port either. -/
theorem EndsField.of_head (hfield : place.field? (startOf stop rest) = some field)
    (htext : ∀ token ∈ rest.head?, token.kind.isText = true →
      ∀ stack fields, stepText ⟨stack, fields, place⟩ token = surplus token .bar)
    (hfresh : place.isFresh = true → ∀ token ∈ rest.head?,
      token.kind ≠ .mark .leftBrace ∧ token.kind ≠ .mark .leftAngle) :
    EndsField stop place field rest := by
  refine ⟨hfield, fun token htoken => ?_⟩
  cases rest with
  | nil => cases htoken
  | cons head left =>
    cases htoken
    replace hfield : place.field? token.span.start = some field := hfield
    cases hkind : token.kind with
    | text | trailingBackslash =>
      have hisText : token.kind.isText = true := by
        rw [hkind]
        rfl
      refine Or.inr (Or.inr fun stack fields => ?_)
      rw [step_of_isText hisText, htext token rfl hisText]
    | mark mark =>
      cases mark with
      | bar => exact Or.inl rfl
      | rightBrace => exact Or.inr (Or.inl rfl)
      | rightAngle =>
        refine Or.inr (Or.inr fun stack fields => ?_)
        simp only [step_of_mark hkind, stepMark, hfield]
      | leftBrace =>
        refine Or.inr (Or.inr fun stack fields => ?_)
        simp only [step_of_mark hkind, stepMark, hfield]
        cases place with
        | start | blank => exact absurd hkind (hfresh rfl token rfl).1
        | port | afterPort | afterText | afterGroup => rfl
      | leftAngle =>
        refine Or.inr (Or.inr fun stack fields => ?_)
        simp only [step_of_mark hkind, stepMark, hfield]
        cases place with
        | start | blank => exact absurd hkind (hfresh rfl token rfl).2
        | port | afterPort | afterText | afterGroup => rfl

/-! ## One token -/

theorem skipBlank_outcome? (tokens : List Token) :
    skipBlank.outcome? tokens = some (.ok (), behindBlank tokens) := by
  simp only [skipBlank, outcome?_bind, outcome?_get, Option.bind_some, behindBlank]
  split <;> rfl

theorem exists_blanks (tokens : List Token) :
    ∃ blanks, tokens = blanks ++ behindBlank tokens ∧ ∀ blank ∈ blanks, blank.isBlank = true := by
  unfold behindBlank
  cases tokens with
  | nil => exact ⟨[], rfl, nofun⟩
  | cons token rest =>
    split
    · next hblank => exact ⟨[token], rfl, List.forall_mem_singleton.2 hblank⟩
    · exact ⟨[], rfl, nofun⟩

theorem takes_behindBlank (tokens : List Token) : Takes 0 tokens (behindBlank tokens) := by
  obtain ⟨blanks, htokens, -⟩ := exists_blanks tokens
  exact ⟨blanks, htokens, Nat.zero_le _⟩

theorem bump_outcome? (tokens : List Token) :
    bump.outcome? tokens = some (.ok tokens.head?, tokens.tail) := rfl

/-- A token of text is taken, if there is one. -/
theorem takeText_outcome? (tokens : List Token) :
    takeText.outcome? tokens = some (.ok none, tokens) ∧
        (∀ token ∈ tokens.head?, token.kind.isText = false) ∨
      ∃ token rest, takeText.outcome? tokens = some (.ok (some token), rest) ∧
        tokens = token :: rest ∧ token.kind.isText = true := by
  cases tokens with
  | nil => exact Or.inl ⟨rfl, nofun⟩
  | cons token rest =>
    have h : takeText.outcome? (token :: rest) =
        if token.kind.isText then some (.ok (some token), rest)
        else some (.ok none, token :: rest) := by
      simp only [takeText, outcome?_bind, outcome?_get, Option.bind_some, List.head?_cons,
        Option.filter_some]
      split <;> rfl
    cases hkind : token.kind.isText with
    | true =>
      rw [if_pos hkind] at h
      exact Or.inr ⟨token, rest, h, rfl, hkind⟩
    | false =>
      rw [if_neg (Bool.eq_false_iff.1 hkind)] at h
      refine Or.inl ⟨h, fun token htoken => ?_⟩
      cases htoken
      exact hkind

/-- A brace and the blanks in front of it are taken, if there is one; if not nothing is. -/
theorem openGroup_outcome? (tokens : List Token) :
    openGroup.outcome? tokens = some (.ok none, tokens) ∧
        (∀ token ∈ (behindBlank tokens).head?, token.kind ≠ .mark .leftBrace) ∨
      ∃ brace rest, openGroup.outcome? tokens = some (.ok (some brace), rest) ∧
        behindBlank tokens = brace :: rest ∧ brace.kind = .mark .leftBrace := by
  have h : openGroup.outcome? tokens =
      let behind := behindBlank tokens
      let brace := behind.head?.filter fun token => token.kind = .mark .leftBrace
      some (.ok brace, if brace.isSome then behind.tail else tokens) := by
    simp only [openGroup, outcome?_bind, skipBlank_outcome?, outcome?_get, outcome?_set,
      outcome?_pure, Option.bind_some]
  cases hbehind : behindBlank tokens with
  | nil =>
    rw [hbehind] at h
    exact Or.inl ⟨h, nofun⟩
  | cons token rest =>
    rw [hbehind] at h
    by_cases hkind : token.kind = .mark .leftBrace
    · refine Or.inr ⟨token, rest, ?_, rfl, hkind⟩
      simpa [Option.filter_some, hkind] using h
    · refine Or.inl ⟨by simpa [Option.filter_some, hkind] using h, fun token htoken => ?_⟩
      cases htoken
      exact hkind

/-! ## Leaves -/

/-- The field has been read up to the tokens that are left. -/
def FieldRead (stop : Nat) (stack : List OpenGroup) (fields : List Field)
    (answer : Except (Located Fault) (List Field)) (field : Field) (rest : List Token) : Prop :=
  ∃ place, answer = answerOf stop ⟨stack, fields, place⟩ rest ∧ EndsField stop place field rest

/-- The bracket that closes a port. -/
theorem closePort_follows {bracket : Span} {name : Option Token}
    (hname : name = none → ∀ token ∈ tokens.head?, token.kind.isText = false)
    (h : answer = answerOf stop ⟨stack, fields, .port bracket name⟩ tokens) :
    Follows 0 (closePort stop bracket name) tokens answer fun mark rest =>
      answer = answerOf stop ⟨stack, fields, .afterPort mark⟩ rest := by
  cases tokens with
  | nil =>
    refine Follows.of_outcome? (bump_outcome? []) (Takes.refl []) ?_
    exact Follows.throw h
  | cons close rest =>
    refine Follows.of_outcome? (bump_outcome? (close :: rest))
      ((Takes.cons close rest).mono (Nat.zero_le 1)) ?_
    by_cases hkind : close.kind = .mark .rightAngle
    · simp only [List.head?_cons, if_pos hkind]
      exact Follows.pure (h.trans (answerOf_of_stepsTo (.closePort bracket name hkind)))
    · simp only [List.head?_cons, if_neg hkind]
      refine Follows.throw (h.trans (answerOf_of_step_error ?_))
      cases htoken : close.kind with
      | mark mark =>
        rw [step_of_mark htoken]
        cases mark with
        | rightAngle => exact absurd htoken hkind
        | leftBrace | rightBrace | bar | leftAngle => rfl
      | text | trailingBackslash =>
        have htext : close.kind.isText = true := by
          rw [htoken]
          rfl
        rw [step_of_isText htext]
        cases name with
        | none => exact absurd htext (Bool.eq_false_iff.1 (hname rfl close rfl))
        | some name => rfl

/-- A port behind its bracket. -/
theorem port_follows {bracket : Token}
    (h : answer = answerOf stop ⟨stack, fields, .port bracket.span none⟩ tokens) :
    Follows 0 (port stop bracket) tokens answer fun mark rest =>
      answer = answerOf stop ⟨stack, fields, .afterPort mark⟩ rest := by
  rcases takeText_outcome? tokens with ⟨hnone, hhead⟩ | ⟨name, rest, hsome, rfl, hkind⟩
  · exact Follows.of_outcome? hnone (Takes.refl tokens) (closePort_follows (fun _ => hhead) h)
  · refine Follows.of_outcome? hsome ((Takes.cons name rest).mono (Nat.zero_le 1)) ?_
    exact closePort_follows nofun (h.trans (answerOf_of_stepsTo (.name bracket.span hkind)))

/-- A port, if there is one. -/
theorem optionalPort_follows (hfresh : place.isFresh = true)
    (h : answer = answerOf stop ⟨stack, fields, place⟩ tokens) :
    Follows 0 (optionalPort stop) tokens answer fun port rest =>
      match port with
      | some mark => answer = answerOf stop ⟨stack, fields, .afterPort mark⟩ rest
      | none => rest = tokens ∧ ∀ token ∈ tokens.head?, token.kind ≠ .mark .leftAngle := by
  refine Follows.of_outcome? (outcome?_get tokens) (Takes.refl tokens) ?_
  cases tokens with
  | nil => exact Follows.pure ⟨rfl, nofun⟩
  | cons bracket rest =>
    by_cases hkind : bracket.kind = .mark .leftAngle
    · have hport := h.trans (answerOf_of_stepsTo (.openPort hkind hfresh))
      simp only [List.head?_cons, Option.filter_some, hkind, decide_true, if_true]
      refine Follows.of_outcome? (outcome?_set rest _)
        ((Takes.cons bracket rest).mono (Nat.zero_le 1)) ?_
      exact Follows.bind (port_follows hport) fun mark left _ h => Follows.pure h
    · simp only [List.head?_cons, Option.filter_some, hkind, decide_false, Bool.false_eq_true,
        if_false]
      refine Follows.pure ⟨rfl, fun token htoken => ?_⟩
      cases htoken
      exact hkind

/-- The text of a leaf, if what is left begins with such a text. -/
theorem leafText_follows {port : Option PortMark}
    (hfield : ∀ next, place.field? next =
      some (.leaf ⟨port.map PortMark.port, [], leafSpan next port ⟨[], Span.empty next⟩⟩))
    (htext : ∀ token ∈ tokens.head?, token.kind.isText = true →
      StepsTo token ⟨stack, fields, place⟩
        ⟨stack, fields, .afterText port (Text.trimAt token.span.start token.text)⟩)
    (hfresh : place.isFresh = true → ∀ token ∈ tokens.head?,
      token.kind ≠ .mark .leftBrace ∧ token.kind ≠ .mark .leftAngle)
    (h : answer = answerOf stop ⟨stack, fields, place⟩ tokens) :
    Follows 0 (leafText stop port) tokens answer (FieldRead stop stack fields answer) := by
  rcases takeText_outcome? tokens with ⟨hnone, hhead⟩ | ⟨token, rest, hsome, rfl, hkind⟩
  · refine Follows.of_outcome? hnone (Takes.refl tokens) ?_
    refine Follows.of_outcome? (outcome?_get tokens) (Takes.refl tokens) ?_
    refine Follows.pure ⟨place, h, .of_head (hfield (startOf stop tokens)) ?_ hfresh⟩
    exact fun token htoken hkind => absurd hkind (Bool.eq_false_iff.1 (hhead token htoken))
  · refine Follows.of_outcome? hsome ((Takes.cons token rest).mono (Nat.zero_le 1)) ?_
    refine Follows.of_outcome? (outcome?_get rest) (Takes.refl rest) ?_
    refine Follows.pure ⟨_, h.trans (answerOf_of_stepsTo (htext token rfl hkind)), ?_⟩
    exact .of_head rfl (fun token htoken hkind stack fields => rfl) nofun

/-- **Leaves.** A field that does not begin with a brace is read up to its end. -/
theorem leaf_follows
    (hbrace : ∀ token ∈ (behindBlank tokens).head?, token.kind ≠ .mark .leftBrace)
    (h : answer = answerOf stop ⟨stack, fields, .start⟩ tokens) :
    Follows 0 (leaf stop) tokens answer (FieldRead stop stack fields answer) := by
  obtain ⟨place, hfresh, h, hstart⟩ := exists_isFresh h
  refine Follows.of_outcome? (skipBlank_outcome? tokens) (takes_behindBlank tokens) ?_
  refine Follows.bind (optionalPort_follows hfresh h) fun port rest _ hport => ?_
  cases port with
  | some mark =>
    exact leafText_follows (fun _ => rfl) (fun token _ hkind => .textAfterPort mark hkind) nofun
      hport
  | none =>
    obtain ⟨rfl, hangle⟩ := hport
    refine leafText_follows ?_ ?_
      (fun _ token htoken => ⟨hbrace token htoken, hangle token htoken⟩) h
    · cases place with
      | start | blank => exact fun _ => rfl
      | port | afterPort | afterText | afterGroup => cases hfresh
    · exact fun token htoken hkind => .text hkind hfresh fun hplace => hstart hplace token htoken

/-! ## Groups and labels -/

/-- A label has been read: the tokens that are left follow its last field. There are none, or the
label is nested and a brace closes it. -/
def LabelRead (stop : Nat) (stack : List OpenGroup) (answer : Except (Located Fault) (List Field))
    (label : List Field) (rest : List Token) : Prop :=
  ∃ fields field, label = fields ++ [field] ∧ FieldRead stop stack fields answer field rest ∧
    ∀ token ∈ rest.head?, stack ≠ [] ∧ token.kind = .mark .rightBrace

/-- The brace that closes a group, with blanks behind it. -/
theorem closeGroup_follows {brace : Token} {label : List Field}
    (h : LabelRead stop (⟨fields, brace.span.start⟩ :: stack) answer label tokens) :
    Follows 0 (closeGroup stop brace label) tokens answer
      (FieldRead stop stack fields answer) := by
  obtain ⟨before, field, rfl, ⟨place, hanswer, hends⟩, hhead⟩ := h
  cases tokens with
  | nil =>
    refine Follows.of_outcome? (bump_outcome? []) (Takes.refl []) ?_
    exact Follows.throw (hanswer.trans hends.answerOf_nil)
  | cons close rest =>
    obtain ⟨-, hkind⟩ := hhead close rfl
    refine Follows.of_outcome? (bump_outcome? (close :: rest))
      ((Takes.cons close rest).mono (Nat.zero_le 1)) ?_
    simp only [List.head?_cons, if_pos hkind]
    refine Follows.of_outcome? (skipBlank_outcome? rest) (takes_behindBlank rest) ?_
    have hclose := hanswer.trans
      (answerOf_of_stepsTo (.closeGroup ⟨fields, brace.span.start⟩ hkind hends.field_eq))
    rcases answerOf_behindBlank fun token hblank => StepsTo.blankAfterGroup _ hblank with
      hpassed | ⟨hnone, hhead⟩
    · refine Follows.pure ⟨_, hclose.trans hpassed, .of_head rfl (fun token _ _ _ _ => ?_)
        fun hfresh => absurd hfresh Bool.false_ne_true⟩
      simp [stepText]
    · refine Follows.pure ⟨_, hclose.trans hnone, .of_head rfl (fun token htoken _ _ _ => ?_)
        fun hfresh => absurd hfresh Bool.false_ne_true⟩
      simp [stepText, hhead token htoken]

/-- The label of a group is read up to its end. -/
def LabelFollows (stop : Nat) (inner : Reader Token (Located Fault) (List Field))
    (tokens : List Token) : Prop :=
  ∀ group stack answer, answer = answerOf stop ⟨group :: stack, [], .start⟩ tokens →
    Follows 0 inner tokens answer (LabelRead stop (group :: stack) answer)

variable {fuel : Nat} {inner : Reader Token (Located Fault) (List Field)}

/-- A field is read up to its end, if a label behind a token that is taken is. -/
theorem field_follows (hinner : ∀ rest, Takes 1 tokens rest → LabelFollows stop inner rest)
    (h : answer = answerOf stop ⟨stack, fields, .start⟩ tokens) :
    Follows 0 (field? stop inner) tokens answer (FieldRead stop stack fields answer) := by
  rcases openGroup_outcome? tokens with ⟨hnone, hbrace⟩ | ⟨brace, rest, hsome, hbehind, hkind⟩
  · exact Follows.of_outcome? hnone (Takes.refl tokens) (leaf_follows hbrace h)
  · have htakes : Takes 1 tokens rest := by
      have hbrace := takes_behindBlank tokens
      rw [hbehind] at hbrace
      exact hbrace.trans (Takes.cons brace rest)
    obtain ⟨place, hfresh, h, -⟩ := exists_isFresh h
    rw [hbehind] at h
    have hopen := h.trans (answerOf_of_stepsTo (.openGroup hkind hfresh))
    refine Follows.of_outcome? hsome (htakes.mono (Nat.zero_le 1)) ?_
    exact Follows.bind (hinner rest htakes _ _ _ hopen) fun label left _ h => closeGroup_follows h

/-- A round takes another field with the bar in front of it, or the label is at its end. -/
theorem fieldsRound_follows (hinner : ∀ rest, Takes 1 tokens rest → LabelFollows stop inner rest)
    (h : FieldRead stop stack fields answer field tokens) :
    Follows 0 (fieldsRound? stop inner (!stack.isEmpty) (fields ++ [field])) tokens answer
      fun round rest =>
        match round with
        | .next label => Takes 1 tokens rest ∧ ∃ fields field, label = fields ++ [field] ∧
            FieldRead stop stack fields answer field rest
        | .last label => LabelRead stop stack answer label rest := by
  obtain ⟨place, hanswer, hends⟩ := h
  refine Follows.of_outcome? (outcome?_get tokens) (Takes.refl tokens) ?_
  cases tokens with
  | nil => exact Follows.pure ⟨fields, field, rfl, ⟨place, hanswer, hends⟩, by simp⟩
  | cons token rest =>
    simp only [List.head?_cons]
    split
    · next hkind =>
      have htakes := Takes.cons token rest
      have hbar := hanswer.trans (answerOf_of_stepsTo (.bar hkind hends.field_eq))
      refine Follows.of_outcome? (outcome?_set rest _) (htakes.mono (Nat.zero_le 1)) ?_
      refine Follows.bind (field_follows (htakes.forall_takes hinner) hbar)
        fun next left hleft h => ?_
      exact Follows.pure ⟨htakes.trans hleft, fields ++ [field], next, rfl, h⟩
    · next hkind =>
      cases stack with
      | nil =>
        have hfield : place.field? token.span.start = some field := hends.field_eq
        refine Follows.throw (hanswer.trans (answerOf_of_step_error ?_))
        simp only [step_of_mark hkind, stepMark, hfield]
        rfl
      | cons group stack =>
        refine Follows.pure ⟨fields, field, rfl, ⟨place, hanswer, hends⟩, fun token htoken => ?_⟩
        cases htoken
        exact ⟨List.cons_ne_nil group stack, hkind⟩
    · next hbar hbrace =>
      rcases hends.follow token rfl with h | h | h
      · exact absurd h hbar
      · exact absurd h hbrace
      · exact Follows.throw (hanswer.trans (answerOf_of_step_error (h stack fields)))

/-- The rounds come to the end of the label, since each of them that is not the last takes a bar. -/
theorem fields_follows (hfuel : tokens.length < fuel)
    (hinner : ∀ rest, Takes 1 tokens rest → LabelFollows stop inner rest)
    (h : FieldRead stop stack fields answer field tokens) :
    Follows 0 (fields? stop inner (!stack.isEmpty) fuel (fields ++ [field])) tokens answer
      (LabelRead stop stack answer) := by
  induction fuel generalizing tokens fields field with
  | zero => exact absurd hfuel (Nat.not_lt_zero _)
  | succ fuel ih =>
    rw [fields?]
    refine Follows.bind (fieldsRound_follows hinner h) fun round rest _ hround => ?_
    cases round with
    | next label =>
      obtain ⟨htakes, fields, field, rfl, h⟩ := hround
      have hlength := htakes.length_add_le
      exact ih (by omega) (htakes.forall_takes hinner) h
    | last label => exact Follows.pure hround

/-- **Labels.** The calls and the rounds come to an end, since the label of a group is read behind
the brace that opens the group. -/
theorem label_follows (hfuel : tokens.length < fuel)
    (h : answer = answerOf stop ⟨stack, [], .start⟩ tokens) :
    Follows 0 (label? stop fuel (!stack.isEmpty)) tokens answer (LabelRead stop stack answer) := by
  induction fuel generalizing tokens stack answer with
  | zero => exact absurd hfuel (Nat.not_lt_zero _)
  | succ fuel ih =>
    -- a group is read behind its brace, so less fuel is enough for its label
    have hinner (rest : List Token) (htakes : Takes 1 tokens rest) :
        LabelFollows stop (label? stop fuel true) rest := by
      have hlength := htakes.length_add_le
      exact fun group stack answer h => ih (by omega) h
    rw [label?]
    refine Follows.bind (field_follows hinner h) fun field rest hrest h => ?_
    have hlength := hrest.length_add_le
    exact fields_follows (by omega) (hrest.forall_takes hinner) h

theorem labelFollows_of_takes (hfuel : tokens.length ≤ fuel) (rest : List Token)
    (htakes : Takes 1 tokens rest) : LabelFollows stop (label? stop fuel true) rest := by
  have hlength := htakes.length_add_le
  exact fun group stack answer h => label_follows (by omega) h

/-- A whole label is read as it should be. -/
theorem whole_follows (hfuel : tokens.length < fuel) (h : answer = answerOf stop .start tokens) :
    Follows 0 (whole? stop fuel) tokens answer fun label _ => answer = .ok label := by
  have hstart : answer = answerOf stop ⟨[], [], .start⟩ tokens := h
  refine Follows.bind (label_follows hfuel hstart) fun label rest _ h => ?_
  obtain ⟨fields, field, rfl, ⟨place, hanswer, hends⟩, hhead⟩ := h
  cases rest with
  | nil =>
    refine Follows.of_outcome? (outcome?_get []) (Takes.refl []) ?_
    exact Follows.pure (hanswer.trans hends.answerOf_nil)
  | cons token rest => exact absurd rfl (hhead token rfl).1

/-- **Record labels by recursive descent.** The functions come back, whatever the label, with what
the reader with a stack makes of it. -/
theorem read?_eq {cs : List Char} (hfuel : (Record.tokens cs).length < fuel) :
    read? fuel cs = some (read cs) := by
  have hanswer : read cs = answerOf (Text.size cs) .start (tokens cs) := rfl
  obtain ⟨outcome, rest, houtcome, -, h⟩ := whole_follows hfuel hanswer
  rw [read?, houtcome]
  cases outcome with
  | ok label => exact congrArg some h.symm
  | error fault => exact congrArg some h.symm

/-! ## Calls and rounds -/

/-- A label is read inside a field only behind a brace that has been taken. -/
theorem field?_outcome? (inner : Reader Token (Located Fault) (List Field))
    (tokens : List Token) :
    (field? stop inner).outcome? tokens = (leaf stop).outcome? tokens ∨
      ∃ blanks brace rest, tokens = blanks ++ brace :: rest ∧
        (∀ blank ∈ blanks, blank.isBlank = true) ∧ brace.kind = .mark .leftBrace ∧
        (field? stop inner).outcome? tokens =
          (inner >>= closeGroup stop brace).outcome? rest := by
  rcases openGroup_outcome? tokens with ⟨hnone, -⟩ | ⟨brace, rest, hsome, hbehind, hkind⟩
  · left
    rw [field?, outcome?_bind, hnone]
    rfl
  · right
    obtain ⟨blanks, htokens, hblanks⟩ := exists_blanks tokens
    rw [hbehind] at htokens
    refine ⟨blanks, brace, rest, htokens, hblanks, hkind, ?_⟩
    rw [field?, outcome?_bind, hsome]
    rfl

/-- There is another round of the fields of a label only behind a bar that has been taken. -/
theorem fieldsRound?_advances (nested : Bool) (fields : List Field)
    (hfuel : tokens.length ≤ fuel) :
    ∃ outcome rest,
      (fieldsRound? stop (label? stop fuel true) nested fields).outcome? tokens =
        some (outcome, rest) ∧
      ∀ label, outcome = .ok (.next label) →
        ∃ bar behind, tokens = bar :: behind ∧ bar.kind = .mark .bar ∧ Takes 0 behind rest := by
  rw [fieldsRound?, outcome?_bind, outcome?_get]
  cases tokens with
  | nil => exact ⟨.ok (.last fields), [], rfl, nofun⟩
  | cons token behind =>
    simp only [Option.bind_some, List.head?_cons]
    split
    · next hkind =>
      have hlength : behind.length ≤ fuel := Nat.le_of_succ_le hfuel
      obtain ⟨outcome, rest, houtcome, htakes, -⟩ :=
        field_follows (labelFollows_of_takes hlength)
          (rfl : answerOf stop ⟨[], fields, .start⟩ behind = _)
      simp only [List.tail_cons, outcome?_bind, outcome?_set, Option.bind_some, houtcome]
      cases outcome with
      | ok field => exact ⟨_, _, rfl, fun _ _ => ⟨token, behind, rfl, hkind, htakes⟩⟩
      | error fault => exact ⟨_, _, rfl, nofun⟩
    · cases nested with
      | true => exact ⟨_, _, rfl, nofun⟩
      | false => exact ⟨_, _, rfl, nofun⟩
    · exact ⟨_, _, rfl, nofun⟩

end DotAttributes.Record.Descent
