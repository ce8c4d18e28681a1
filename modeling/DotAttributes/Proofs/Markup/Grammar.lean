import DotAttributes.Proofs.Markup.Parts

/-!
# The grammar of markup labels

Which labels can be read is said by a grammar over the kinds of their tokens:

    label      := content end
    content    := (text | element)*
    element    := '<' name attributes ('/>' | '>' content '</' name '>')
    attributes := (name '=' value)*

`read_iff_isContent` ties the reader to it. A label whose comments and values are closed can be
read exactly if its tokens derive from the grammar, and its tree has these tokens and no others.
If it cannot, the fault is at the first token with which what has been read can no longer be
continued to a label (`IsViable`); that may be the end.
-/

namespace DotAttributes.Markup

/-! ## The grammar -/

/-- The kinds of tokens of the attributes of a tag. -/
inductive IsAttributes : List TokenKind → Prop
  | nil : IsAttributes []
  | cons {rest : List TokenKind} (hrest : IsAttributes rest) :
      IsAttributes (.name :: .equals :: .value :: rest)

mutual

/-- The kinds of tokens of content. -/
inductive IsContent : List TokenKind → Prop
  | nil : IsContent []
  | text {rest : List TokenKind} (hrest : IsContent rest) : IsContent (.text :: rest)
  | element {first rest : List TokenKind} (hfirst : IsElement first) (hrest : IsContent rest) :
      IsContent (first ++ rest)

/-- The kinds of tokens of an element. -/
inductive IsElement : List TokenKind → Prop
  | selfClosed {attributes : List TokenKind} (hattributes : IsAttributes attributes) :
      IsElement (.tagOpen :: .name :: attributes ++ [.selfClose])
  | closed {attributes content : List TokenKind} (hattributes : IsAttributes attributes)
      (hcontent : IsContent content) :
      IsElement (.tagOpen :: .name :: attributes ++ .tagClose :: content ++
        [.closeTagOpen, .name, .tagClose])

end

/-- The kinds of tokens of a label: content, then the end. -/
def IsLabel (kinds : List TokenKind) : Prop :=
  ∃ content, IsContent content ∧ kinds = content ++ [.eof]

/-- What can be continued to a label. -/
def IsViable (kinds : List TokenKind) : Prop := ∃ rest, IsLabel (kinds ++ rest)

theorem IsContent.append {kinds rest : List TokenKind} (hrest : IsContent rest) :
    IsContent kinds → IsContent (kinds ++ rest)
  | .nil => hrest
  | .text h => .text (hrest.append h)
  | .element hfirst h => by
    rw [List.append_assoc]
    exact .element hfirst (hrest.append h)

/-! ## Trees derive from the grammar -/

theorem isAttributes_parts (attributes : List Attribute) :
    IsAttributes ((attributes.flatMap Attribute.parts).map Part.kind) := by
  induction attributes with
  | nil => exact .nil
  | cons attr attributes ih => exact .cons ih

theorem Opening.map_kind_parts (opening : Opening) :
    opening.parts.map Part.kind = .tagOpen :: .name ::
      (opening.attributes.flatMap Attribute.parts).map Part.kind := rfl

mutual

theorem Content.isContent_parts : ∀ content : Content, IsContent (content.parts.map Part.kind)
  | .text _ => .text .nil
  | .tag name attributes none children => by
    have hattributes := isAttributes_parts attributes
    have hchildren := isContent_levelParts children
    have h := IsContent.element (.selfClosed hattributes) hchildren
    simpa [Content.parts, Opening.map_kind_parts, Part.mark] using h
  | .tag name attributes (some close) children => by
    have hattributes := isAttributes_parts attributes
    have hchildren := isContent_levelParts children
    have h := IsContent.element (.closed hattributes hchildren) .nil
    simpa [Content.parts, closeParts, Opening.map_kind_parts, Part.mark, Part.name] using h
termination_by structural content => content

/-- The tokens of a tree derive from the grammar. -/
theorem isContent_levelParts : ∀ level : List Content, IsContent ((levelParts level).map Part.kind)
  | [] => .nil
  | content :: rest => by
    rw [levelParts, List.map_append]
    exact (isContent_levelParts rest).append content.isContent_parts
termination_by structural level => level

end

/-! ## The grammar derives trees -/

theorem IsAttributes.exists_attributes {kinds : List TokenKind} (h : IsAttributes kinds) :
    ∀ tokens : List Token, tokens.map Token.kind = kinds →
      ∃ attributes : List Attribute,
        tokens.map Token.part = attributes.flatMap Attribute.parts := by
  induction h with
  | nil =>
    intro tokens htokens
    cases List.map_eq_nil_iff.1 htokens
    exact ⟨[], rfl⟩
  | cons _ ih =>
    intro tokens htokens
    obtain ⟨name, _, rfl, hname, htokens⟩ := List.map_eq_cons_iff.1 htokens
    obtain ⟨equals, _, rfl, hequals, htokens⟩ := List.map_eq_cons_iff.1 htokens
    obtain ⟨value, rest, rfl, hvalue, htokens⟩ := List.map_eq_cons_iff.1 htokens
    obtain ⟨attributes, hrest⟩ := ih rest htokens
    let attr : Attribute := ⟨name.located, ⟨unquote value.text, value.span⟩⟩
    refine ⟨attr :: attributes, ?_⟩
    simp [hrest, Attribute.parts, Token.part, hname, hequals, hvalue, attr, Part.name, Part.mark]

theorem IsAttributes.exists_opening {kinds : List TokenKind} (h : IsAttributes kinds)
    (tokens : List Token) (htokens : tokens.map Token.kind = .tagOpen :: .name :: kinds) :
    ∃ opening : Opening, tokens.map Token.part = opening.parts := by
  obtain ⟨tagOpen, _, rfl, hopen, htokens⟩ := List.map_eq_cons_iff.1 htokens
  obtain ⟨name, rest, rfl, hname, htokens⟩ := List.map_eq_cons_iff.1 htokens
  obtain ⟨attributes, hparts⟩ := h.exists_attributes rest htokens
  refine ⟨⟨name.located, attributes⟩, ?_⟩
  simp [hparts, Opening.parts, Token.part, hopen, hname]

mutual

/-- Tokens that derive from the grammar are those of a tree. -/
theorem IsContent.exists_level : ∀ {kinds : List TokenKind}, IsContent kinds →
    ∀ tokens : List Token, tokens.map Token.kind = kinds →
      ∃ level : List Content, (∀ content ∈ level, content.IsWellClosed) ∧
        tokens.map Token.part = levelParts level
  | _, .nil, tokens, htokens => by
    cases List.map_eq_nil_iff.1 htokens
    exact ⟨[], List.forall_mem_nil _, rfl⟩
  | _, .text hrest, tokens, htokens => by
    obtain ⟨text, rest, rfl, htext, htokens⟩ := List.map_eq_cons_iff.1 htokens
    obtain ⟨level, hclosed, hparts⟩ := hrest.exists_level rest htokens
    let content : Content := .text (Text.trimAt text.span.start text.text)
    refine ⟨content :: level, List.forall_mem_cons.2 ⟨.text _, hclosed⟩, ?_⟩
    simp [hparts, levelParts, Content.parts, Token.part, htext, content]
  | _, .element hfirst hrest, tokens, htokens => by
    obtain ⟨first, rest, rfl, hfirstTokens, htokens⟩ := List.map_eq_append_iff.1 htokens
    obtain ⟨content, hcontent, hcontentParts⟩ := hfirst.exists_content first hfirstTokens
    obtain ⟨level, hclosed, hparts⟩ := hrest.exists_level rest htokens
    refine ⟨content :: level, List.forall_mem_cons.2 ⟨hcontent, hclosed⟩, ?_⟩
    rw [List.map_append, hcontentParts, hparts]
    rfl

theorem IsElement.exists_content : ∀ {kinds : List TokenKind}, IsElement kinds →
    ∀ tokens : List Token, tokens.map Token.kind = kinds →
      ∃ content : Content, content.IsWellClosed ∧ tokens.map Token.part = content.parts
  | _, .selfClosed hattributes, tokens, htokens => by
    obtain ⟨first, last, rfl, hfirst, hlast⟩ := List.map_eq_append_iff.1 htokens
    obtain ⟨close, _, rfl, hclose, hlast⟩ := List.map_eq_cons_iff.1 hlast
    cases List.map_eq_nil_iff.1 hlast
    obtain ⟨⟨name, attributes⟩, hopening⟩ := hattributes.exists_opening first hfirst
    refine ⟨.tag name attributes none [], .selfClosed name attributes, ?_⟩
    simp [hopening, Content.parts, levelParts, Token.part, hclose]
  | _, .closed hattributes hcontent, tokens, htokens => by
    obtain ⟨front, last, rfl, hfront, hlast⟩ := List.map_eq_append_iff.1 htokens
    obtain ⟨first, inner, rfl, hfirst, hinner⟩ := List.map_eq_append_iff.1 hfront
    obtain ⟨tagClose, inner, rfl, htagClose, hinner⟩ := List.map_eq_cons_iff.1 hinner
    obtain ⟨closeOpen, _, rfl, hcloseOpen, hlast⟩ := List.map_eq_cons_iff.1 hlast
    obtain ⟨close, _, rfl, hclose, hlast⟩ := List.map_eq_cons_iff.1 hlast
    obtain ⟨closeEnd, _, rfl, hcloseEnd, hlast⟩ := List.map_eq_cons_iff.1 hlast
    cases List.map_eq_nil_iff.1 hlast
    obtain ⟨⟨name, attributes⟩, hopening⟩ := hattributes.exists_opening first hfirst
    obtain ⟨children, hchildren, hparts⟩ := hcontent.exists_level inner hinner
    refine ⟨.tag name attributes (some close.located) children,
      .closed name attributes close.located hchildren, ?_⟩
    simp [hopening, hparts, Content.parts, closeParts, Token.part, htagClose, hcloseOpen, hclose,
      hcloseEnd]

end

/-! ## The reader -/

/-- A step that fails is at fault with its token. -/
theorem span_of_step_error {state : State} {token : Token} {fault : Located Fault}
    (h : step state token = .error fault) : fault.span = token.span := by
  unfold step stepContent stepAttributes mismatch surplus at h
  repeat' split at h
  all_goals cases h
  all_goals rfl

/-- A run that fails stops at one of its tokens. -/
theorem exists_token_of_run_error {tokens : List Token} {state : State} {fault : Located Fault}
    (h : run state tokens = .error fault) :
    ∃ before token after state', tokens = before ++ token :: after ∧
      run state before = .ok state' ∧ step state' token = .error fault := by
  induction tokens generalizing state with
  | nil => cases h
  | cons token tokens ih =>
    rw [run] at h
    split at h
    · next next hstep =>
      obtain ⟨before, found, after, state', rfl, hrun, hfound⟩ := ih h
      refine ⟨token :: before, found, after, state', rfl, ?_, hfound⟩
      rw [run, hstep]
      exact hrun
    · next hstep =>
      cases h
      exact ⟨[], token, tokens, state, rfl, rfl, hstep⟩

/-- Tokens that derive from the grammar can be read. -/
theorem IsContent.run_eq_ok {tokens : List Token} (h : IsContent (tokens.map Token.kind)) :
    ∃ level, run .start tokens = .ok ⟨[], level, .content⟩ := by
  obtain ⟨level, hclosed, hparts⟩ := h.exists_level tokens rfl
  exact ⟨level, run_of_parts hclosed hparts⟩

/-- Tokens that can be read derive from the grammar, and the tree has their parts. -/
theorem of_run_eq_ok {tokens : List Token} (htokens : ∀ token ∈ tokens, token.kind ≠ .eof)
    {level : List Content} (h : run .start tokens = .ok ⟨[], level, .content⟩) :
    levelParts level = tokens.map Token.part ∧ IsContent (tokens.map Token.kind) := by
  obtain ⟨hparts, -⟩ := parts_of_run State.start_isNested htokens h
  have hparts : levelParts level = tokens.map Token.part := by
    simpa [State.parts, State.start, stackParts, Place.parts, levelParts] using hparts
  refine ⟨hparts, ?_⟩
  have hcontent := isContent_levelParts level
  rw [hparts, List.map_map] at hcontent
  simpa [Function.comp_def] using hcontent

/-! ## Continuing -/

/-- A token of a kind, of which nothing else counts. -/
def Token.ofKind (kind : TokenKind) : Token := ⟨kind, [], Span.empty 0⟩

/-- Open tags can be closed. -/
theorem exists_run_of_stack (stack : List OpenTag) (content : List Content) :
    ∃ (kinds : List TokenKind) (level : List Content), .eof ∉ kinds ∧
      run ⟨stack, content, .content⟩ (kinds.map Token.ofKind) = .ok ⟨[], level, .content⟩ := by
  induction stack generalizing content with
  | nil => exact ⟨[], content, List.not_mem_nil, rfl⟩
  | cons tag stack ih =>
    let close : Content :=
      .tag tag.opening.name tag.opening.attributes (some (Token.ofKind .name).located) content
    obtain ⟨kinds, level, heof, hrun⟩ := ih (tag.before ++ [close])
    refine ⟨[.closeTagOpen, .name, .tagClose] ++ kinds, level, by simpa using heof, ?_⟩
    rw [List.map_append]
    exact hrun

/-- What has been read can be continued to a level without open tags. -/
theorem exists_run_of_isNested {state : State} (h : state.IsNested) :
    ∃ (kinds : List TokenKind) (level : List Content), .eof ∉ kinds ∧
      run state (kinds.map Token.ofKind) = .ok ⟨[], level, .content⟩ := by
  obtain ⟨stack, content, place⟩ := state
  -- first the tag that is being read is brought to its end
  have hplace : ∃ (kinds : List TokenKind) (stack' : List OpenTag) (content' : List Content),
      .eof ∉ kinds ∧ run ⟨stack, content, place⟩ (kinds.map Token.ofKind) =
        .ok ⟨stack', content', .content⟩ := by
    cases place with
    | content => exact ⟨[], _, _, by decide, rfl⟩
    | tagName => exact ⟨[.name, .selfClose], _, _, by decide, rfl⟩
    | attributes opening => exact ⟨[.selfClose], _, _, by decide, rfl⟩
    | equals opening name => exact ⟨[.equals, .value, .selfClose], _, _, by decide, rfl⟩
    | value opening name => exact ⟨[.value, .selfClose], _, _, by decide, rfl⟩
    | closeName =>
      obtain ⟨tag, stack, rfl⟩ := List.exists_cons_of_ne_nil h
      exact ⟨[.name, .tagClose], _, _, by decide, rfl⟩
    | closeEnd name =>
      obtain ⟨tag, stack, rfl⟩ := List.exists_cons_of_ne_nil h
      exact ⟨[.tagClose], _, _, by decide, rfl⟩
  obtain ⟨first, stack', content', hfirst, hrun⟩ := hplace
  obtain ⟨rest, level, hrest, hlevel⟩ := exists_run_of_stack stack' content'
  refine ⟨first ++ rest, level, by simp [hfirst, hrest], ?_⟩
  rw [List.map_append, run_append hrun, hlevel]

/-- What can be read can be continued to a label. -/
theorem isViable_of_run {tokens : List Token} (htokens : ∀ token ∈ tokens, token.kind ≠ .eof)
    {state : State} (h : run .start tokens = .ok state) : IsViable (tokens.map Token.kind) := by
  obtain ⟨-, hnested⟩ := parts_of_run State.start_isNested htokens h
  obtain ⟨kinds, level, heof, hrun⟩ := exists_run_of_isNested hnested
  have hall : ∀ token ∈ tokens ++ kinds.map Token.ofKind, token.kind ≠ .eof := by
    refine List.forall_mem_append.2 ⟨htokens, List.forall_mem_map.2 fun kind hkind hne => ?_⟩
    exact heof (hne ▸ hkind)
  obtain ⟨-, hcontent⟩ := of_run_eq_ok hall ((run_append h _).trans hrun)
  have hkinds : (kinds.map Token.ofKind).map Token.kind = kinds := by
    simp [Token.ofKind, Function.comp_def]
  rw [List.map_append, hkinds] at hcontent
  exact ⟨kinds ++ [.eof], _, hcontent, (List.append_assoc ..).symm⟩

theorem exists_run_of_append {state next : State} {tokens rest : List Token}
    (h : run state (tokens ++ rest) = .ok next) : ∃ state', run state tokens = .ok state' := by
  induction tokens generalizing state with
  | nil => exact ⟨state, rfl⟩
  | cons token tokens ih =>
    rw [List.cons_append, run] at h
    rw [run]
    split at h
    · exact ih h
    · cases h

/-- What can be continued to a label can be read. -/
theorem IsViable.run_eq_ok {tokens : List Token} (h : IsViable (tokens.map Token.kind)) :
    ∃ state, run .start tokens = .ok state := by
  obtain ⟨rest, content, hcontent, hkinds⟩ := h
  have hall : (tokens ++ rest.map Token.ofKind).map Token.kind = content ++ [.eof] := by
    rw [← hkinds]
    simp [Token.ofKind, Function.comp_def]
  obtain ⟨front, last, hsplit, rfl, hlast⟩ := List.map_eq_append_iff.1 hall
  obtain ⟨token, _, rfl, heof, hlast⟩ := List.map_eq_cons_iff.1 hlast
  cases List.map_eq_nil_iff.1 hlast
  obtain ⟨level, hfront⟩ := hcontent.run_eq_ok
  have hend : run ⟨[], level, .content⟩ [token] = .ok ⟨[], level, .content⟩ := by
    simp [run, step, stepContent, heof]
  exact exists_run_of_append (hsplit ▸ (run_append hfront [token]).trans hend)

/-! ## The end -/

theorem kind_nextPiece_ne_eof (mode : Mode) (c : Char) (cs : List Char) :
    (nextPiece mode c cs).kind ≠ some .eof := by
  cases mode with
  | content =>
    show (contentPiece c cs).kind ≠ some .eof
    unfold contentPiece commentPiece
    repeat' split
    all_goals exact nofun
  | tag =>
    show (tagPiece c cs).kind ≠ some .eof
    unfold tagPiece valuePiece
    repeat' split
    all_goals exact nofun

/-- The last token, and no other, is the end. -/
theorem exists_tokens_lexFrom (mode : Mode) (offset : Nat) (cs : List Char) :
    ∃ tokens last, (lexFrom mode offset cs).tokens = tokens ++ [last] ∧ last.kind = .eof ∧
      ∀ token ∈ tokens, token.kind ≠ .eof := by
  fun_induction lexFrom mode offset cs with
  | case1 mode offset => exact ⟨[], _, rfl, rfl, List.forall_mem_nil _⟩
  | case2 mode offset c cs piece stop tail ih =>
    obtain ⟨tokens, last, htail, heof, htokens⟩ := ih
    refine ⟨_ ++ tokens, last, by rw [htail, List.append_assoc], heof, ?_⟩
    refine List.forall_mem_append.2 ⟨fun token htoken heof => ?_, htokens⟩
    obtain ⟨kind, hkind, rfl⟩ := Option.map_eq_some_iff.1 (Option.mem_toList.1 htoken)
    exact kind_nextPiece_ne_eof mode c cs (heof ▸ hkind)

/-- The end is read where no tag is open, and changes nothing. -/
theorem step_eof {state next : State} {token : Token} (hkind : token.kind = .eof)
    (h : step state token = .ok next) :
    next = state ∧ ∃ level, state = ⟨[], level, .content⟩ := by
  obtain ⟨stack, content, place⟩ := state
  cases place with
  | content =>
    simp only [step, stepContent, hkind] at h
    split at h
    · next hstack =>
      cases h
      exact ⟨rfl, content, by rw [List.isEmpty_iff.1 hstack]⟩
    · cases h
  | attributes opening =>
    simp only [step, stepAttributes, hkind] at h
    cases h
  | tagName | equals | value | closeName | closeEnd =>
    simp only [step, hkind] at h
    cases h

/-- Tokens and the end are read if the tokens are read as a level. -/
theorem run_eof_iff {tokens : List Token} {last : Token} (hlast : last.kind = .eof)
    {state : State} :
    run .start (tokens ++ [last]) = .ok state ↔
      ∃ level, state = ⟨[], level, .content⟩ ∧ run .start tokens = .ok ⟨[], level, .content⟩ := by
  constructor
  · intro h
    obtain ⟨front, hfront⟩ := exists_run_of_append h
    rw [run_append hfront, run] at h
    split at h
    · next next hstep =>
      obtain ⟨rfl, level, rfl⟩ := step_eof hlast hstep
      cases h
      exact ⟨level, rfl, hfront⟩
    · cases h
  · rintro ⟨level, rfl, h⟩
    rw [run_append h]
    simp [run, step, stepContent, hlast]

/-! ## Labels -/

section

variable {cs : List Char} {tokens : List Token} {last : Token} (hclosed : (lex cs).unclosed = [])
  (hlex : (lex cs).tokens = tokens ++ [last])

include hclosed hlex

theorem read_eq_ok_iff (hlast : last.kind = .eof) {label : List Content} :
    read cs = .ok label ↔ run .start tokens = .ok ⟨[], label, .content⟩ := by
  have hread : read cs = .ok label ↔
      ∃ state, run .start (tokens ++ [last]) = .ok state ∧ state.content = label := by
    simp only [read, hclosed, hlex]
    cases run .start (tokens ++ [last]) <;> simp
  rw [hread]
  constructor
  · rintro ⟨state, hrun, rfl⟩
    obtain ⟨level, rfl, hlevel⟩ := (run_eof_iff hlast).1 hrun
    exact hlevel
  · intro h
    exact ⟨_, (run_eof_iff hlast).2 ⟨label, rfl, h⟩, rfl⟩

theorem read_eq_error_iff {fault : Located Fault} :
    read cs = .error fault ↔ run .start (tokens ++ [last]) = .error fault := by
  simp only [read, hclosed, hlex]
  cases run .start (tokens ++ [last]) <;> simp

end

/-- **The grammar.** What a label does not close is its first fault. If it closes everything, it
can be read exactly if the tokens in front of the end derive from the grammar, and its tree has
the parts of these tokens. Otherwise the fault is at the first token with which the tokens in
front can no longer be continued to a label. -/
theorem read_iff_isContent (cs : List Char) :
    (∀ first rest, (lex cs).unclosed = first :: rest →
        read cs = .error (first.map .unclosed)) ∧
      ((lex cs).unclosed = [] → ∃ tokens last,
        (lex cs).tokens = tokens ++ [last] ∧ last.kind = .eof ∧
        (∀ token ∈ tokens, token.kind ≠ .eof) ∧
        ((∃ label, read cs = .ok label) ↔ IsContent (tokens.map Token.kind)) ∧
        (∀ label, read cs = .ok label → levelParts label = tokens.map Token.part) ∧
        ∀ fault, read cs = .error fault → ∃ before token after,
          tokens ++ [last] = before ++ token :: after ∧ fault.span = token.span ∧
          IsViable (before.map Token.kind) ∧
          ¬ IsViable ((before ++ [token]).map Token.kind)) := by
  refine ⟨fun first rest h => by simp only [read, h], fun hclosed => ?_⟩
  obtain ⟨tokens, last, hlex, hlast, htokens⟩ := exists_tokens_lexFrom .content 0 cs
  have hok (label : List Content) :
      read cs = .ok label ↔ run .start tokens = .ok ⟨[], label, .content⟩ :=
    read_eq_ok_iff hclosed hlex hlast
  refine ⟨tokens, last, hlex, hlast, htokens, ⟨?_, fun h => ?_⟩, fun label h => ?_,
    fun fault h => ?_⟩
  · rintro ⟨label, h⟩
    exact (of_run_eq_ok htokens ((hok label).1 h)).2
  · obtain ⟨level, hlevel⟩ := h.run_eq_ok
    exact ⟨level, (hok level).2 hlevel⟩
  · exact (of_run_eq_ok htokens ((hok label).1 h)).1
  · obtain ⟨before, token, after, state, hsplit, hbefore, hstep⟩ :=
      exists_token_of_run_error ((read_eq_error_iff hclosed hlex).1 h)
    refine ⟨before, token, after, hsplit, span_of_step_error hstep, ?_, fun hviable => ?_⟩
    · have hfront : tokens = before ++ (token :: after).dropLast := by
        rw [← List.dropLast_append_of_ne_nil (List.cons_ne_nil _ _), ← hsplit, List.dropLast_concat]
      exact isViable_of_run (fun t ht => htokens t (by simp [hfront, ht])) hbefore
    · obtain ⟨next, hnext⟩ := hviable.run_eq_ok
      rw [run_append hbefore, run, hstep] at hnext
      cases hnext

/-- A tag that is not closed: its text can be continued to a label, but not by the end. -/
theorem read_iff_isContent_openTag :
    (lex "<b>x".toList).unclosed = [] ∧ ∃ fault, read "<b>x".toList = .error fault ∧
      fault.span = ⟨4, 4⟩ ∧ ∃ before token after,
        (lex "<b>x".toList).tokens = before ++ token :: after ∧ fault.span = token.span ∧
        IsViable (before.map Token.kind) ∧ ¬ IsViable ((before ++ [token]).map Token.kind) := by
  have hlexed : lex "<b>x".toList = ⟨[⟨.tagOpen, ['<'], ⟨0, 1⟩⟩, ⟨.name, ['b'], ⟨1, 2⟩⟩,
      ⟨.tagClose, ['>'], ⟨2, 3⟩⟩, ⟨.text, ['x'], ⟨3, 4⟩⟩, ⟨.eof, [], ⟨4, 4⟩⟩], []⟩ := by
    decide +kernel
  have hclosed : (lex "<b>x".toList).unclosed = [] := by rw [hlexed]
  have hread : read "<b>x".toList =
      .error ⟨.mismatched ⟨.eof, [], ⟨4, 4⟩⟩ .closeTag, ⟨4, 4⟩⟩ := by
    simp only [read, hlexed]
    rfl
  obtain ⟨tokens, last, hlex, -, -, -, -, hfault⟩ := (read_iff_isContent "<b>x".toList).2 hclosed
  obtain ⟨before, token, after, hsplit, hspan, hviable⟩ := hfault _ hread
  exact ⟨hclosed, _, hread, rfl, before, token, after, hlex.trans hsplit, hspan, hviable⟩

end DotAttributes.Markup
