import DotAttributes.Markup.Check
import DotAttributes.Proofs.Markup.Grammar
import DotAttributes.Proofs.Slice

/-!
# Where the parts of a markup label stand

The scanner puts every token at the characters it is made of, and a value token starts and
ends with the same quote (`isPlaced_of_mem_lex`). Each step of the reader keeps that all parts
of what has been read stand at their places (`isPlaced_of_step`), so they do in the tree of a
label that reads well (`isPlaced_of_read`). Every problem of a label is reported at the place
of one of these parts (`hasSpan_of_mem_check`), and a label that cannot be read at a token or
at what it does not close (`hasSpan_of_read_error`).
-/

namespace DotAttributes.Markup

open Text

/-! ## Tokens -/

/-- A token stands at its place, and a value stands between two equal quotes. -/
structure Token.IsPlaced (cs : List Char) (token : Token) : Prop where
  standsAt : StandsAt 0 cs token.span token.text
  quoted : token.kind = .value →
    ∃ quote, isQuote quote = true ∧ token.text = quote :: unquote token.text ++ [quote]

theorem standsAt_of_mem_lexFrom {mode : Mode} {offset : Nat} {cs : List Char} :
    ∀ token ∈ (lexFrom mode offset cs).tokens, StandsAt offset cs token.span token.text := by
  fun_induction lexFrom mode offset cs with
  | case1 mode offset =>
    intro token htoken
    rw [List.mem_singleton.1 htoken]
    exact standsAt_end _ []
  | case2 mode offset c cs piece stop tail ih =>
    have htext : c :: cs = piece.taken ++ piece.rest := (taken_append_rest mode c cs).symm
    rw [htext]
    intro token htoken
    rcases List.mem_append.1 htoken with htoken | htoken
    · obtain ⟨kind, -, rfl⟩ := Option.map_eq_some_iff.1 (Option.mem_toList.1 htoken)
      exact StandsAt.append_right standsAt_self
    · exact StandsAt.append_left (ih token htoken)

/-- A piece that is a closed value stands between two equal quotes. -/
theorem quoted_of_nextPiece {mode : Mode} {c : Char} {cs : List Char}
    (hkind : (nextPiece mode c cs).kind = some .value)
    (hclosed : (nextPiece mode c cs).unclosed = none) :
    ∃ quote body, isQuote quote = true ∧
      (nextPiece mode c cs).taken = quote :: body ++ [quote] := by
  cases mode with
  | content =>
    exfalso
    revert hkind
    show (contentPiece c cs).kind = some .value → False
    unfold contentPiece commentPiece
    repeat' split
    all_goals exact nofun
  | tag =>
    revert hkind hclosed
    show (tagPiece c cs).kind = some .value → (tagPiece c cs).unclosed = none →
      ∃ quote body, isQuote quote = true ∧ (tagPiece c cs).taken = quote :: body ++ [quote]
    unfold tagPiece
    split
    · exact nofun
    split
    · exact nofun
    split
    · exact nofun
    split
    · exact nofun
    split
    · next hquote =>
      unfold valuePiece
      split
      · next body rest _ => exact fun _ _ => ⟨c, body, hquote, rfl⟩
      · exact fun _ hclosed => nomatch hclosed
    split
    · exact nofun
    · exact nofun

theorem quoted_of_mem_lexFrom {mode : Mode} {offset : Nat} {cs : List Char}
    (h : (lexFrom mode offset cs).unclosed = []) :
    ∀ token ∈ (lexFrom mode offset cs).tokens, token.kind = .value →
      ∃ quote body, isQuote quote = true ∧ token.text = quote :: body ++ [quote] := by
  fun_induction lexFrom mode offset cs with
  | case1 mode offset =>
    intro token htoken hvalue
    rw [List.mem_singleton.1 htoken] at hvalue
    cases hvalue
  | case2 mode offset c cs piece stop tail ih =>
    obtain ⟨hpiece, htail⟩ := List.append_eq_nil_iff.1 h
    intro token htoken hvalue
    rcases List.mem_append.1 htoken with htoken | htoken
    · obtain ⟨kind, hkind, rfl⟩ := Option.map_eq_some_iff.1 (Option.mem_toList.1 htoken)
      have hclosed : piece.unclosed = none := by simpa using hpiece
      exact quoted_of_nextPiece (hvalue ▸ hkind) hclosed
    · exact ih htail token htoken hvalue

/-- Every token of a label that closes its comments and values is placed. -/
theorem isPlaced_of_mem_lex {cs : List Char} (h : (lex cs).unclosed = []) :
    ∀ token ∈ (lex cs).tokens, token.IsPlaced cs := by
  intro token htoken
  refine ⟨standsAt_of_mem_lexFrom token htoken, fun hvalue => ?_⟩
  obtain ⟨quote, body, hquote, htext⟩ := quoted_of_mem_lexFrom h token htoken hvalue
  refine ⟨quote, hquote, ?_⟩
  simp [htext, unquote]

/-! ## Trees -/

/-- The name of an attribute of a tag stands at its place, and its value between two equal
quotes. -/
structure Attribute.IsPlaced (cs : List Char) (attr : Attribute) : Prop where
  name : StandsAt 0 cs attr.name.span attr.name.item
  value : ∃ quote, isQuote quote = true ∧
    StandsAt 0 cs attr.value.span (quote :: attr.value.item ++ [quote])

/-- All parts of content stand at their places, text without the blanks around it. -/
inductive Content.IsPlaced (cs : List Char) : Content → Prop
  | text {run : Located (List Char)} (run_standsAt : StandsAt 0 cs run.span run.item)
      (run_trimmed : trim run.item = run.item) : IsPlaced cs (.text run)
  | tag {name : Located (List Char)} {attributes : List Attribute}
      {close : Option (Located (List Char))} {children : List Content}
      (name_standsAt : StandsAt 0 cs name.span name.item)
      (attributes_placed : ∀ attr ∈ attributes, attr.IsPlaced cs)
      (close_standsAt : ∀ found ∈ close, StandsAt 0 cs found.span found.item)
      (children_placed : ∀ child ∈ children, IsPlaced cs child) :
      IsPlaced cs (.tag name attributes close children)

/-- All parts of the opening of a tag stand at their places. -/
structure Opening.IsPlaced (cs : List Char) (opening : Opening) : Prop where
  name : StandsAt 0 cs opening.name.span opening.name.item
  attributes : ∀ attr ∈ opening.attributes, attr.IsPlaced cs

/-- All parts of a tag that is being read stand at their places. -/
def Place.IsPlaced (cs : List Char) : Place → Prop
  | .content | .tagName | .closeName => True
  | .attributes opening => opening.IsPlaced cs
  | .equals opening name | .value opening name =>
    opening.IsPlaced cs ∧ StandsAt 0 cs name.span name.item
  | .closeEnd name => StandsAt 0 cs name.span name.item

/-- All parts of an open tag and of the content in front of it stand at their places. -/
structure OpenTag.IsPlaced (cs : List Char) (tag : OpenTag) : Prop where
  opening : tag.opening.IsPlaced cs
  before : ∀ content ∈ tag.before, content.IsPlaced cs

/-- All parts of what has been read stand at their places. -/
structure State.IsPlaced (cs : List Char) (state : State) : Prop where
  stack : ∀ tag ∈ state.stack, tag.IsPlaced cs
  content : ∀ content ∈ state.content, content.IsPlaced cs
  place : state.place.IsPlaced cs

variable {cs : List Char}

theorem State.start_isPlaced : State.start.IsPlaced cs :=
  ⟨fun _ h => absurd h List.not_mem_nil, fun _ h => absurd h List.not_mem_nil, trivial⟩

theorem isPlaced_of_stepContent {stack : List OpenTag} {content : List Content} {token : Token}
    {next : State} (hstack : ∀ tag ∈ stack, tag.IsPlaced cs)
    (hcontent : ∀ x ∈ content, x.IsPlaced cs) (htoken : token.IsPlaced cs)
    (h : stepContent stack content token = .ok next) : next.IsPlaced cs := by
  unfold stepContent at h
  split at h
  · cases h
    have hrun := htoken.standsAt.trans (standsAt_trimAt token.span.start token.text)
    refine ⟨hstack, List.forall_mem_append.2 ⟨hcontent, ?_⟩, trivial⟩
    exact List.forall_mem_singleton.2 (.text hrun (trim_trim token.text))
  · cases h
    exact ⟨hstack, hcontent, trivial⟩
  · split at h
    · cases h
    · cases h
      exact ⟨hstack, hcontent, trivial⟩
  · split at h
    · cases h
      exact ⟨hstack, hcontent, trivial⟩
    · cases h
  · cases h

theorem isPlaced_of_stepAttributes {stack : List OpenTag} {content : List Content}
    {opening : Opening} {token : Token} {next : State} (hstack : ∀ tag ∈ stack, tag.IsPlaced cs)
    (hcontent : ∀ x ∈ content, x.IsPlaced cs) (hopening : opening.IsPlaced cs)
    (htoken : token.IsPlaced cs) (h : stepAttributes stack content opening token = .ok next) :
    next.IsPlaced cs := by
  unfold stepAttributes at h
  split at h
  · cases h
    refine ⟨?_, fun _ hx => absurd hx List.not_mem_nil, trivial⟩
    intro tag htag
    rcases List.mem_cons.1 htag with rfl | htag
    · exact ⟨hopening, hcontent⟩
    · exact hstack tag htag
  · cases h
    refine ⟨hstack, List.forall_mem_append.2 ⟨hcontent, ?_⟩, trivial⟩
    exact List.forall_mem_singleton.2 (.tag hopening.name hopening.attributes nofun nofun)
  · cases h
    exact ⟨hstack, hcontent, hopening, htoken.standsAt⟩
  · cases h

theorem isPlaced_of_closeTag {close : Located (List Char)} {stack : List OpenTag}
    {content : List Content} (hstack : ∀ tag ∈ stack, tag.IsPlaced cs)
    (hcontent : ∀ x ∈ content, x.IsPlaced cs) (hclose : StandsAt 0 cs close.span close.item) :
    (closeTag close content stack).IsPlaced cs := by
  cases stack with
  | nil => exact ⟨hstack, hcontent, trivial⟩
  | cons tag stack =>
    have htag := hstack tag List.mem_cons_self
    refine ⟨fun t ht => hstack t (List.mem_cons_of_mem _ ht), ?_, trivial⟩
    refine List.forall_mem_append.2 ⟨htag.before, List.forall_mem_singleton.2 ?_⟩
    refine .tag htag.opening.name htag.opening.attributes (fun found hfound => ?_) hcontent
    cases hfound
    exact hclose

/-- A step of the reader keeps that everything stands at its place. -/
theorem isPlaced_of_step {state next : State} {token : Token} (hstate : state.IsPlaced cs)
    (htoken : token.IsPlaced cs) (h : step state token = .ok next) : next.IsPlaced cs := by
  obtain ⟨hstack, hcontent, hplace⟩ := hstate
  unfold step at h
  split at h
  · exact isPlaced_of_stepContent hstack hcontent htoken h
  · split at h
    · cases h
      exact ⟨hstack, hcontent, htoken.standsAt, nofun⟩
    · cases h
  · next opening heq =>
    rw [heq] at hplace
    exact isPlaced_of_stepAttributes hstack hcontent hplace htoken h
  · next opening name heq =>
    rw [heq] at hplace
    split at h
    · cases h
      exact ⟨hstack, hcontent, hplace⟩
    · cases h
  · next opening name heq =>
    rw [heq] at hplace
    split at h
    · next hvalue =>
      cases h
      obtain ⟨quote, hquote, htext⟩ := htoken.quoted hvalue
      have hattr : Attribute.IsPlaced cs ⟨name, ⟨unquote token.text, token.span⟩⟩ :=
        ⟨hplace.2, quote, hquote, htext ▸ htoken.standsAt⟩
      exact ⟨hstack, hcontent, hplace.1.name,
        List.forall_mem_append.2 ⟨hplace.1.attributes, List.forall_mem_singleton.2 hattr⟩⟩
    · cases h
  · split at h
    · cases h
      exact ⟨hstack, hcontent, htoken.standsAt⟩
    · cases h
  · next name heq =>
    rw [heq] at hplace
    split at h
    · cases h
      exact isPlaced_of_closeTag hstack hcontent hplace
    · cases h

theorem isPlaced_of_run {tokens : List Token} (htokens : ∀ token ∈ tokens, token.IsPlaced cs) :
    ∀ {state next : State}, state.IsPlaced cs → run state tokens = .ok next → next.IsPlaced cs := by
  induction tokens with
  | nil =>
    intro state next hstate h
    cases h
    exact hstate
  | cons token tokens ih =>
    intro state next hstate h
    rw [run] at h
    split at h
    · next state' hstep =>
      have hstate' := isPlaced_of_step hstate (htokens token List.mem_cons_self) hstep
      exact ih (fun t ht => htokens t (List.mem_cons_of_mem _ ht)) hstate' h
    · cases h

/-- All parts of a label that reads well stand at their places. -/
theorem isPlaced_of_read {label : List Content} (h : read cs = .ok label) :
    ∀ content ∈ label, content.IsPlaced cs := by
  unfold read at h
  simp only at h
  split at h
  · cases h
  · next hclosed =>
    split at h
    · next state hrun =>
      cases h
      exact (isPlaced_of_run (isPlaced_of_mem_lex hclosed) State.start_isPlaced hrun).content
    · cases h

/-! ## Faults -/

/-- What a piece fails to close stands at its beginning. -/
theorem hasSpan_locate {mode : Mode} {offset : Nat} {c : Char} {cs : List Char} {u : Unclosed}
    (h : (nextPiece mode c cs).unclosed = some u) :
    HasSpan offset (c :: cs) (u.locate offset).span := by
  cases mode with
  | content =>
    revert h
    show (contentPiece c cs).unclosed = some u → HasSpan offset (c :: cs) (u.locate offset).span
    unfold contentPiece
    split
    · next rest =>
      unfold commentPiece
      split
      · exact nofun
      · rintro ⟨⟩
        exact ⟨['<', '!', '-', '-'], [], rest, rfl, rfl⟩
    all_goals exact nofun
  | tag =>
    revert h
    show (tagPiece c cs).unclosed = some u → HasSpan offset (c :: cs) (u.locate offset).span
    unfold tagPiece
    split
    · exact nofun
    split
    · exact nofun
    split
    · exact nofun
    split
    · exact nofun
    split
    · next hquote =>
      unfold valuePiece
      split
      · exact nofun
      · rintro ⟨⟩
        have hone : c.utf8Size = 1 := by
          simp only [isQuote, Bool.or_eq_true, beq_iff_eq] at hquote
          rcases hquote with rfl | rfl <;> decide
        refine ⟨[c], [], cs, rfl, ?_⟩
        rw [size_cons, hone]
        rfl
    split
    · exact nofun
    · exact nofun

/-- What a label does not close stands at its place. -/
theorem hasSpan_of_mem_unclosed {mode : Mode} {offset : Nat} {cs : List Char} :
    ∀ u ∈ (lexFrom mode offset cs).unclosed, HasSpan offset cs u.span := by
  fun_induction lexFrom mode offset cs with
  | case1 => exact List.forall_mem_nil _
  | case2 mode offset c cs piece stop tail ih =>
    intro u hu
    rcases List.mem_append.1 hu with hu | hu
    · obtain ⟨what, hwhat, rfl⟩ := Option.map_eq_some_iff.1 (Option.mem_toList.1 hu)
      exact hasSpan_locate hwhat
    · rw [← taken_append_rest mode c cs]
      exact (ih u hu).append_left

/-- A label that cannot be read is reported at what it does not close, or at a token. -/
theorem hasSpan_of_read_error {fault : Located Fault} (h : read cs = .error fault) :
    HasSpan 0 cs fault.span := by
  unfold read at h
  simp only at h
  split at h
  · next unclosed rest hunclosed =>
    cases h
    exact hasSpan_of_mem_unclosed unclosed (hunclosed ▸ List.mem_cons_self)
  · split at h
    · cases h
    · next hrun =>
      cases h
      obtain ⟨before, token, after, _, htokens, -, hstep⟩ := exists_token_of_run_error hrun
      have htoken : token ∈ (lexFrom .content 0 cs).tokens := by
        show token ∈ (lex cs).tokens
        rw [htokens]
        exact List.mem_append_right _ List.mem_cons_self
      rw [span_of_step_error hstep]
      exact (standsAt_of_mem_lexFrom token htoken).hasSpan

/-! ## Reported problems -/

theorem Content.IsPlaced.hasSpan_place {content : Content} (h : content.IsPlaced cs) :
    HasSpan 0 cs content.place := by
  cases h with
  | text hrun _ => exact ⟨_, hrun⟩
  | tag hname _ _ _ => exact ⟨_, hname⟩

theorem hasSpan_of_mem_siblingProblems {level : List Content}
    (hlevel : ∀ content ∈ level, content.IsPlaced cs) :
    ∀ p ∈ siblingProblems level, HasSpan 0 cs p.span := by
  intro p hp
  simp only [siblingProblems] at hp
  split at hp
  · obtain ⟨content, hcontent, rfl⟩ := List.mem_map.1 hp
    exact (hlevel content (List.mem_filter.1 hcontent |>.1)).hasSpan_place
  · cases hp

theorem hasSpan_of_mem_attributeProblems {rule : TagRule} {tag : List Char} {attr : Attribute}
    (hattr : attr.IsPlaced cs) : ∀ p ∈ attributeProblems rule tag attr, HasSpan 0 cs p.span := by
  intro p hp
  obtain ⟨quote, -, hvalue⟩ := hattr.value
  simp only [attributeProblems] at hp
  split at hp
  · rw [List.mem_singleton.1 hp]
    exact ⟨_, hattr.name⟩
  · split at hp
    · cases hp
    · rw [List.mem_singleton.1 hp]
      exact ⟨_, hvalue⟩

theorem hasSpan_of_mem_tagProblems {parent : List Char} {name : Located (List Char)}
    {attributes : List Attribute} {close : Option (Located (List Char))} {children : List Content}
    (hname : StandsAt 0 cs name.span name.item)
    (hattributes : ∀ attr ∈ attributes, attr.IsPlaced cs)
    (hclose : ∀ found ∈ close, StandsAt 0 cs found.span found.item) :
    ∀ p ∈ tagProblems parent name attributes close children, HasSpan 0 cs p.span := by
  intro p hp
  unfold tagProblems at hp
  split at hp
  · rw [List.mem_singleton.1 hp]
    exact ⟨_, hname⟩
  · simp only [List.mem_append] at hp
    rcases hp with (((hp | hp) | hp) | hp) | hp
    · unfold selfClosingProblems at hp
      split at hp
      · rw [List.mem_singleton.1 hp]
        exact ⟨_, hname⟩
      · cases hp
    · unfold closeProblems at hp
      split at hp
      · cases hp
      · next found =>
        split at hp
        · cases hp
        · rw [List.mem_singleton.1 hp]
          exact ⟨_, hclose found rfl⟩
    · unfold parentProblems at hp
      split at hp
      · cases hp
      · rw [List.mem_singleton.1 hp]
        exact ⟨_, hname⟩
    · obtain ⟨attr, hattr, hp⟩ := List.mem_flatMap.1 hp
      exact hasSpan_of_mem_attributeProblems (hattributes attr hattr) p hp
    · unfold textProblems at hp
      split at hp
      · rw [List.mem_singleton.1 hp]
        exact ⟨_, hname⟩
      · cases hp

theorem mem_checkContents {parent : List Char} {level : List Content} {p : Located Problem} :
    p ∈ checkContents parent level ↔ ∃ content ∈ level, p ∈ checkContent parent content := by
  induction level with
  | nil => simp [checkContents]
  | cons content rest ih => simp [checkContents, ih]

/-- The problems of content are reported at the places of its parts. -/
theorem Content.IsPlaced.hasSpan_of_mem_checkContent {content : Content}
    (h : content.IsPlaced cs) :
    ∀ parent, ∀ p ∈ checkContent parent content, HasSpan 0 cs p.span := by
  induction h with
  | text _ _ =>
    intro parent p hp
    rw [checkContent] at hp
    cases hp
  | tag hname hattributes hclose hchildren ih =>
    intro parent p hp
    rw [checkContent, List.mem_append, List.mem_append] at hp
    rcases hp with (hp | hp) | hp
    · exact hasSpan_of_mem_tagProblems hname hattributes hclose p hp
    · exact hasSpan_of_mem_siblingProblems hchildren p hp
    · obtain ⟨child, hchild, hp⟩ := mem_checkContents.1 hp
      exact ih child hchild _ p hp

/-- Every problem of a label is reported at a span of its value. -/
theorem hasSpan_of_mem_check {label : List Content} (h : read cs = .ok label)
    {p : Located Problem} (hp : p ∈ check label) : HasSpan 0 cs p.span := by
  have hlabel := isPlaced_of_read h
  rcases List.mem_append.1 hp with hp | hp
  · exact hasSpan_of_mem_siblingProblems hlabel p hp
  · obtain ⟨content, hcontent, hp⟩ := mem_checkContents.1 hp
    exact (hlabel content hcontent).hasSpan_of_mem_checkContent _ p hp

end DotAttributes.Markup
