import DotAttributes.Markup.Reading

/-!
# The tokens of a tree

A tree of markup has a sequence of parts, from left to right, which is what it keeps of the
tokens it was read from: the kinds of all of them, and of names, values and text what they say
and where they stand.

* Reading loses nothing (`parts_of_run`): the parts of what has been read are those of the tokens.
* Reading a tree back from tokens with its parts gives the tree (`run_of_parts`).
-/

namespace DotAttributes.Markup

/-! ## Parts -/

/-- What a tree keeps of a token: its kind, and what was read from it. -/
structure Part where
  kind : TokenKind
  data : Option (Located (List Char))
deriving DecidableEq, Repr

/-- A part of which only the kind counts. -/
def Part.mark (kind : TokenKind) : Part := ⟨kind, none⟩

/-- A name. -/
def Part.name (name : Located (List Char)) : Part := ⟨.name, some name⟩

/-- What a tree keeps of a token: text is trimmed, a value is without its quotes. -/
def Token.part (token : Token) : Part :=
  match token.kind with
  | .text => ⟨.text, some (Text.trimAt token.span.start token.text)⟩
  | .name => .name token.located
  | .value => ⟨.value, some ⟨unquote token.text, token.span⟩⟩
  | kind => .mark kind

/-- The parts of an attribute of a tag. -/
def Attribute.parts (attr : Attribute) : List Part :=
  [.name attr.name, .mark .equals, ⟨.value, some attr.value⟩]

/-- The parts of a tag up to the end of its attributes. -/
def Opening.parts (opening : Opening) : List Part :=
  .mark .tagOpen :: .name opening.name :: opening.attributes.flatMap Attribute.parts

/-- The parts of the close tag of a tag, without its end. -/
def closeParts (close : Located (List Char)) : List Part := [.mark .closeTagOpen, .name close]

mutual

/-- The parts of content. -/
def Content.parts : Content → List Part
  | .text run => [⟨.text, some run⟩]
  | .tag name attributes none children =>
    Opening.parts ⟨name, attributes⟩ ++ .mark .selfClose :: levelParts children
  | .tag name attributes (some close) children =>
    Opening.parts ⟨name, attributes⟩ ++ .mark .tagClose :: levelParts children ++
      closeParts close ++ [.mark .tagClose]

/-- The parts of a level. -/
def levelParts : List Content → List Part
  | [] => []
  | content :: rest => content.parts ++ levelParts rest

end

@[simp] theorem levelParts_append (level rest : List Content) :
    levelParts (level ++ rest) = levelParts level ++ levelParts rest := by
  induction level with
  | nil => rfl
  | cons content level ih => simp [levelParts, ih]

@[simp] theorem levelParts_singleton (content : Content) :
    levelParts [content] = content.parts :=
  List.append_nil _

@[simp] theorem Token.part_kind (token : Token) : token.part.kind = token.kind := by
  unfold part
  split <;> simp_all [Part.name, Part.mark]

/-- A token is a name if its part is one. -/
theorem Token.of_part_eq_name {token : Token} {name : Located (List Char)}
    (h : token.part = .name name) : token.kind = .name ∧ token.located = name := by
  have hkind : token.kind = .name := by rw [← token.part_kind, h]; rfl
  refine ⟨hkind, ?_⟩
  simpa [part, hkind, Part.name] using h

theorem Token.kind_of_part_eq_mark {token : Token} {kind : TokenKind}
    (h : token.part = .mark kind) : token.kind = kind := by
  rw [← token.part_kind, h]
  rfl

theorem Token.of_part_eq_value {token : Token} {value : Located (List Char)}
    (h : token.part = ⟨.value, some value⟩) :
    token.kind = .value ∧ Located.mk (unquote token.text) token.span = value := by
  have hkind : token.kind = .value := by rw [← token.part_kind, h]
  refine ⟨hkind, ?_⟩
  simpa [part, hkind] using h

theorem Token.of_part_eq_text {token : Token} {run : Located (List Char)}
    (h : token.part = ⟨.text, some run⟩) :
    token.kind = .text ∧ Text.trimAt token.span.start token.text = run := by
  have hkind : token.kind = .text := by rw [← token.part_kind, h]
  refine ⟨hkind, ?_⟩
  simpa [part, hkind] using h

/-! ## Parts of what has been read -/

/-- The parts of an open tag and of the content in front of it. -/
def OpenTag.parts (tag : OpenTag) : List Part :=
  levelParts tag.before ++ tag.opening.parts ++ [.mark .tagClose]

/-- The parts of open tags, the outermost of which is the last one. -/
def stackParts (stack : List OpenTag) : List Part := stack.reverse.flatMap OpenTag.parts

/-- The parts of a tag that is being read. -/
def Place.parts : Place → List Part
  | content => []
  | tagName => [.mark .tagOpen]
  | attributes opening => opening.parts
  | equals opening name => opening.parts ++ [.name name]
  | value opening name => opening.parts ++ [.name name, .mark .equals]
  | closeName => [.mark .closeTagOpen]
  | closeEnd name => closeParts name

/-- The parts of what has been read. -/
def State.parts (state : State) : List Part :=
  stackParts state.stack ++ levelParts state.content ++ state.place.parts

/-- There is a tag to close where one is being closed. -/
def State.IsNested (state : State) : Prop :=
  match state.place with
  | .closeName | .closeEnd _ => state.stack ≠ []
  | _ => True

theorem State.start_isNested : State.start.IsNested := trivial

theorem parts_of_stepContent {stack : List OpenTag} {content : List Content} {token : Token}
    {next : State} (hkind : token.kind ≠ .eof) (h : stepContent stack content token = .ok next) :
    next.parts = stackParts stack ++ levelParts content ++ [token.part] ∧ next.IsNested := by
  unfold stepContent at h
  split at h
  · next htext =>
    cases h
    simp [State.parts, State.IsNested, Place.parts, Content.parts, Token.part, htext]
  · next hopen =>
    cases h
    simp [State.parts, State.IsNested, Place.parts, Token.part, hopen]
  · next hclose =>
    split at h
    · cases h
    · next hstack =>
      cases h
      simp_all [State.parts, State.IsNested, Place.parts, Token.part]
  · next heof => exact absurd heof hkind
  · cases h

theorem parts_of_stepAttributes {stack : List OpenTag} {content : List Content}
    {opening : Opening} {token : Token} {next : State}
    (h : stepAttributes stack content opening token = .ok next) :
    next.parts = stackParts stack ++ levelParts content ++ opening.parts ++ [token.part] ∧
      next.IsNested := by
  unfold stepAttributes at h
  split at h
  · next hclose =>
    cases h
    simp [State.parts, State.IsNested, Place.parts, stackParts, OpenTag.parts, levelParts,
      Token.part, hclose]
  · next hclose =>
    cases h
    simp [State.parts, State.IsNested, Place.parts, Content.parts, levelParts, Token.part, hclose]
  · next hname =>
    cases h
    simp [State.parts, State.IsNested, Place.parts, Token.part, hname]
  · cases h

theorem parts_closeTag {close : Located (List Char)} {content : List Content}
    {stack : List OpenTag} (h : stack ≠ []) :
    (closeTag close content stack).parts =
      stackParts stack ++ levelParts content ++ closeParts close ++ [.mark .tagClose] := by
  cases stack with
  | nil => exact absurd rfl h
  | cons tag stack =>
    simp [closeTag, State.parts, Place.parts, Content.parts, stackParts, OpenTag.parts]

/-- A step adds the part of its token. The end of the label has none. -/
theorem parts_of_step {state next : State} {token : Token} (hstate : state.IsNested)
    (hkind : token.kind ≠ .eof) (h : step state token = .ok next) :
    next.parts = state.parts ++ [token.part] ∧ next.IsNested := by
  obtain ⟨stack, content, place⟩ := state
  cases place with
  | content =>
    simpa [State.parts, Place.parts] using parts_of_stepContent hkind h
  | attributes opening =>
    simpa [State.parts, Place.parts] using parts_of_stepAttributes h
  | closeEnd name =>
    simp only [step] at h
    split at h
    · next hclose =>
      cases h
      refine ⟨?_, ?_⟩
      · rw [parts_closeTag hstate]
        simp [State.parts, Place.parts, Token.part, hclose]
      · cases stack <;> trivial
    · cases h
  | tagName =>
    simp only [step] at h
    split at h
    · next hname =>
      cases h
      simp [State.parts, State.IsNested, Place.parts, Opening.parts, Token.part, hname]
    · cases h
  | equals opening name =>
    simp only [step] at h
    split at h
    · next hequals =>
      cases h
      simp [State.parts, State.IsNested, Place.parts, Token.part, hequals]
    · cases h
  | value opening name =>
    simp only [step] at h
    split at h
    · next hvalue =>
      cases h
      simp [State.parts, State.IsNested, Place.parts, Opening.parts, Attribute.parts, Token.part,
        hvalue]
    · cases h
  | closeName =>
    simp only [step] at h
    split at h
    · next hname =>
      cases h
      refine ⟨?_, hstate⟩
      simp [State.parts, Place.parts, closeParts, Token.part, hname]
    · cases h

/-- **Nothing is lost.** Reading adds the parts of the tokens, in their order. -/
theorem parts_of_run {tokens : List Token} {state next : State} (hstate : state.IsNested)
    (htokens : ∀ token ∈ tokens, token.kind ≠ .eof) (h : run state tokens = .ok next) :
    next.parts = state.parts ++ tokens.map Token.part ∧ next.IsNested := by
  induction tokens generalizing state with
  | nil =>
    cases h
    exact ⟨(List.append_nil _).symm, hstate⟩
  | cons token tokens ih =>
    rw [run] at h
    split at h
    · next state' hstep =>
      obtain ⟨hparts, hnested⟩ := parts_of_step hstate (htokens token List.mem_cons_self) hstep
      obtain ⟨hrest, hnext⟩ := ih hnested (fun t ht => htokens t (List.mem_cons_of_mem _ ht)) h
      refine ⟨?_, hnext⟩
      rw [hrest, hparts, List.append_assoc]
      rfl
    · cases h

/-! ## Reading trees back -/

theorem run_append {state next : State} {tokens : List Token} (h : run state tokens = .ok next)
    (rest : List Token) : run state (tokens ++ rest) = run next rest := by
  induction tokens generalizing state with
  | nil =>
    cases h
    rfl
  | cons token tokens ih =>
    rw [run] at h
    split at h
    · next state' hstep =>
      rw [List.cons_append, run, hstep]
      exact ih h
    · cases h

/-- Tags that close themselves have no content. -/
inductive Content.IsWellClosed : Content → Prop
  | text (run : Located (List Char)) : IsWellClosed (.text run)
  | selfClosed (name : Located (List Char)) (attributes : List Attribute) :
      IsWellClosed (.tag name attributes none [])
  | closed (name : Located (List Char)) (attributes : List Attribute)
      (close : Located (List Char)) {children : List Content}
      (children_closed : ∀ child ∈ children, IsWellClosed child) :
      IsWellClosed (.tag name attributes (some close) children)

/-- Tokens with the parts of content are read as this content. -/
def Content.ReadsBack (content : Content) : Prop :=
  ∀ (tokens : List Token) (stack : List OpenTag) (before : List Content),
    tokens.map Token.part = content.parts →
      run ⟨stack, before, .content⟩ tokens = .ok ⟨stack, before ++ [content], .content⟩

theorem run_of_levelParts {level : List Content} (h : ∀ content ∈ level, content.ReadsBack) :
    ∀ (tokens : List Token) (stack : List OpenTag) (before : List Content),
      tokens.map Token.part = levelParts level →
        run ⟨stack, before, .content⟩ tokens = .ok ⟨stack, before ++ level, .content⟩ := by
  induction level with
  | nil =>
    intro tokens stack before htokens
    cases List.map_eq_nil_iff.1 htokens
    rw [List.append_nil]
    rfl
  | cons content level ih =>
    intro tokens stack before htokens
    obtain ⟨first, rest, rfl, hfirst, hrest⟩ := List.map_eq_append_iff.1 htokens
    rw [run_append (h content List.mem_cons_self first stack before hfirst),
      ih (fun c hc => h c (List.mem_cons_of_mem _ hc)) rest stack _ hrest, List.append_assoc]
    rfl

theorem run_of_attributeParts {attributes : List Attribute} (stack : List OpenTag)
    (content : List Content) : ∀ (opening : Opening) (tokens : List Token),
      tokens.map Token.part = attributes.flatMap Attribute.parts →
        run ⟨stack, content, .attributes opening⟩ tokens = .ok ⟨stack, content,
          .attributes { opening with attributes := opening.attributes ++ attributes }⟩ := by
  induction attributes with
  | nil =>
    intro opening tokens htokens
    cases List.map_eq_nil_iff.1 htokens
    rw [List.append_nil]
    rfl
  | cons attr attributes ih =>
    intro opening tokens htokens
    obtain ⟨first, rest, rfl, hfirst, hrest⟩ := List.map_eq_append_iff.1 htokens
    have hattr : run ⟨stack, content, .attributes opening⟩ first = .ok ⟨stack, content,
        .attributes { opening with attributes := opening.attributes ++ [attr] }⟩ := by
      obtain ⟨name, _, rfl, hname, hfirst⟩ := List.map_eq_cons_iff.1 hfirst
      obtain ⟨equals, _, rfl, hequals, hfirst⟩ := List.map_eq_cons_iff.1 hfirst
      obtain ⟨value, _, rfl, hvalue, hfirst⟩ := List.map_eq_cons_iff.1 hfirst
      cases List.map_eq_nil_iff.1 hfirst
      obtain ⟨hname, hnameData⟩ := Token.of_part_eq_name hname
      obtain ⟨hvalue, hvalueData⟩ := Token.of_part_eq_value hvalue
      have hequals := Token.kind_of_part_eq_mark hequals
      simp [run, step, stepAttributes, hname, hequals, hvalue, hnameData, hvalueData]
    rw [run_append hattr, ih _ rest hrest, List.append_assoc]
    rfl

/-- The tokens of a tag up to the end of its attributes open it. -/
theorem run_of_openingParts {name : Located (List Char)} {attributes : List Attribute}
    {tokens : List Token} (h : tokens.map Token.part = Opening.parts ⟨name, attributes⟩)
    (stack : List OpenTag) (content : List Content) :
    run ⟨stack, content, .content⟩ tokens =
      .ok ⟨stack, content, .attributes ⟨name, attributes⟩⟩ := by
  obtain ⟨tagOpen, _, rfl, hopen, h⟩ := List.map_eq_cons_iff.1 h
  obtain ⟨nameToken, rest, rfl, hname, hrest⟩ := List.map_eq_cons_iff.1 h
  obtain ⟨hname, hdata⟩ := Token.of_part_eq_name hname
  have hopen := Token.kind_of_part_eq_mark hopen
  have hrun := run_of_attributeParts stack content ⟨name, []⟩ rest hrest
  simpa [run, step, stepContent, hopen, hname, hdata] using hrun

/-- The tokens of a close tag close the innermost open tag. -/
theorem run_of_closeParts {close : Located (List Char)} {tokens : List Token}
    (h : tokens.map Token.part = closeParts close ++ [.mark .tagClose]) (tag : OpenTag)
    (stack : List OpenTag) (content : List Content) :
    run ⟨tag :: stack, content, .content⟩ tokens =
      .ok (closeTag close content (tag :: stack)) := by
  obtain ⟨closeOpen, _, rfl, hopen, h⟩ := List.map_eq_cons_iff.1 h
  obtain ⟨nameToken, _, rfl, hname, h⟩ := List.map_eq_cons_iff.1 h
  obtain ⟨closeEnd, _, rfl, hend, h⟩ := List.map_eq_cons_iff.1 h
  cases List.map_eq_nil_iff.1 h
  obtain ⟨hname, hdata⟩ := Token.of_part_eq_name hname
  have hopen := Token.kind_of_part_eq_mark hopen
  have hend := Token.kind_of_part_eq_mark hend
  simp [run, step, stepContent, hopen, hname, hend, hdata]

theorem Content.IsWellClosed.readsBack {content : Content} (h : content.IsWellClosed) :
    content.ReadsBack := by
  induction h with
  | text textRun =>
    intro tokens stack before htokens
    obtain ⟨token, _, rfl, htext, htokens⟩ := List.map_eq_cons_iff.1 htokens
    cases List.map_eq_nil_iff.1 htokens
    obtain ⟨htext, hdata⟩ := Token.of_part_eq_text htext
    simp [run, step, stepContent, htext, hdata]
  | selfClosed name attributes =>
    intro tokens stack before htokens
    obtain ⟨first, rest, rfl, hfirst, hrest⟩ := List.map_eq_append_iff.1 htokens
    obtain ⟨token, _, rfl, hclose, hrest⟩ := List.map_eq_cons_iff.1 hrest
    cases List.map_eq_nil_iff.1 hrest
    have hclose := Token.kind_of_part_eq_mark hclose
    rw [run_append (run_of_openingParts hfirst stack before)]
    simp [run, step, stepAttributes, hclose]
  | @closed name attributes close children _ ih =>
    intro tokens stack before htokens
    simp only [Content.parts, List.append_assoc] at htokens
    obtain ⟨first, tokens, rfl, hfirst, htokens⟩ := List.map_eq_append_iff.1 htokens
    obtain ⟨token, tokens, rfl, hopen, htokens⟩ := List.map_eq_cons_iff.1 htokens
    obtain ⟨inner, last, rfl, hinner, hlast⟩ := List.map_eq_append_iff.1 htokens
    have hopen := Token.kind_of_part_eq_mark hopen
    let tag : OpenTag := ⟨⟨name, attributes⟩, before⟩
    have hstep : step ⟨stack, before, .attributes ⟨name, attributes⟩⟩ token =
        .ok ⟨tag :: stack, [], .content⟩ := by
      simp [step, stepAttributes, hopen, tag]
    rw [run_append (run_of_openingParts hfirst stack before), run, hstep]
    show run ⟨tag :: stack, [], .content⟩ (inner ++ last) = _
    rw [run_append (run_of_levelParts ih inner (tag :: stack) [] hinner),
      run_of_closeParts hlast]
    rfl

/-- **Reading back.** Tokens with the parts of a level are read as this level. -/
theorem run_of_parts {level : List Content} (h : ∀ content ∈ level, content.IsWellClosed)
    {tokens : List Token} (htokens : tokens.map Token.part = levelParts level) :
    run .start tokens = .ok ⟨[], level, .content⟩ :=
  run_of_levelParts (fun content hcontent => (h content hcontent).readsBack) tokens [] [] htokens

end DotAttributes.Markup
