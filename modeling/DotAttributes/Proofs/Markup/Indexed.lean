import DotAttributes.Markup.Reading
import DotAttributes.Proofs.Markup.IndexedTokens
import DotAttributes.Proofs.Markup.Spans

/-!
# Reading markup labels by offsets

The reader of markup labels as one that knows kinds and places of tokens only and slices the label
where it needs characters: for names, values, text and the tokens that it complains about. The
blanks in front of text are counted by a subtraction, and the quote behind a value is taken away
by another one.

The places of tokens are good ones, and a value that is closed has both of its quotes. So each
step goes as it should (`step?_eq`), and the tree is the same (`read?_eq`).
-/

namespace DotAttributes.Markup.Indexed

open Text

/-! ## The reader -/

/-- The token at a place. There is nothing to slice for the end of the label. -/
def tokenAt? (text : List Char) (token : Located TokenKind) : Option Token :=
  if token.item = .eof then some ⟨.eof, [], token.span⟩
  else do
    let found ← slice? text token.span
    some ⟨token.item, found, token.span⟩

/-- The fault of a token that is not the one expected. -/
def mismatch? (text : List Char) (token : Located TokenKind) (expected : Expected) :
    Option (Except (Located Fault) State) := do
  let found ← tokenAt? text token
  some (mismatch found expected)

/-- The fault of a token that is one too many. -/
def surplus? (text : List Char) (token : Located TokenKind) (expected : Expected) :
    Option (Except (Located Fault) State) := do
  let found ← tokenAt? text token
  some (surplus found expected)

/-- A name with its place. -/
def nameAt? (text : List Char) (span : Span) : Option (Located (List Char)) := do
  let name ← slice? text span
  some ⟨name, span⟩

/-- A run of text without the blanks around it. -/
def textRun? (text : List Char) (span : Span) : Option (Located (List Char)) := do
  let raw ← slice? text span
  let leading ← subtract? (size raw) (size (trimStart raw))
  some ⟨trim raw, Span.ofSize (span.start + leading) (size (trim raw))⟩

/-- A value without the quotes around it. What does not start and end with the same quote loses
its first byte only. -/
def unquote? (raw : List Char) : Option (List Char) :=
  let inner := (from? raw 1).getD []
  match raw.head?, inner.getLast? with
  | some first, some last =>
    if first = last ∧ inner ≠ [] then do
      let stop ← subtract? (size inner) last.utf8Size
      slice? inner ⟨0, stop⟩
    else some inner
  | _, _ => some inner

/-- Reads a token of the content of a level. -/
def stepContent? (text : List Char) (stack : List OpenTag) (content : List Content)
    (token : Located TokenKind) : Option (Except (Located Fault) State) :=
  match token.item with
  | .text => do
    let run ← textRun? text token.span
    some (.ok ⟨stack, content ++ [.text run], .content⟩)
  | .tagOpen => some (.ok ⟨stack, content, .tagName⟩)
  | .closeTagOpen =>
    if stack.isEmpty then surplus? text token .endOfLabel
    else some (.ok ⟨stack, content, .closeName⟩)
  | .eof =>
    if stack.isEmpty then some (.ok ⟨stack, content, .content⟩) else mismatch? text token .closeTag
  | _ => surplus? text token .content

/-- Reads a token of the attributes of a tag. -/
def stepAttributes? (text : List Char) (stack : List OpenTag) (content : List Content)
    (opening : Opening) (token : Located TokenKind) : Option (Except (Located Fault) State) :=
  match token.item with
  | .tagClose => some (.ok ⟨⟨opening, content⟩ :: stack, [], .content⟩)
  | .selfClose =>
    some (.ok ⟨stack, content ++ [.tag opening.name opening.attributes none []], .content⟩)
  | .name => do
    let name ← nameAt? text token.span
    some (.ok ⟨stack, content, .equals opening name⟩)
  | _ => mismatch? text token .tagEnd

/-- Reads one token. -/
def step? (text : List Char) (state : State) (token : Located TokenKind) :
    Option (Except (Located Fault) State) :=
  match state.place with
  | .content => stepContent? text state.stack state.content token
  | .tagName =>
    if token.item = .name then do
      let name ← nameAt? text token.span
      some (.ok { state with place := .attributes ⟨name, []⟩ })
    else mismatch? text token .tagName
  | .attributes opening => stepAttributes? text state.stack state.content opening token
  | .equals opening name =>
    if token.item = .equals then some (.ok { state with place := .value opening name })
    else mismatch? text token .equals
  | .value opening name =>
    if token.item = .value then do
      let value ← unquote? (← slice? text token.span)
      let attr : Attribute := ⟨name, ⟨value, token.span⟩⟩
      let opening := { opening with attributes := opening.attributes ++ [attr] }
      some (.ok { state with place := .attributes opening })
    else mismatch? text token .value
  | .closeName =>
    if token.item = .name then do
      let name ← nameAt? text token.span
      some (.ok { state with place := .closeEnd name })
    else mismatch? text token .tagName
  | .closeEnd name =>
    if token.item = .tagClose then some (.ok (closeTag name state.content state.stack))
    else mismatch? text token .tagEnd

/-- Reads tokens one after the other. -/
def run? (text : List Char) (state : State) :
    List (Located TokenKind) → Option (Except (Located Fault) State)
  | [] => some (.ok state)
  | token :: tokens => do
    match ← step? text state token with
    | .ok next => run? text next tokens
    | .error fault => some (.error fault)

/-- Reads a label. What it does not close is reported before anything else. -/
def read? (text : List Char) : Option (Except (Located Fault) (List Content)) := do
  let noted ← lex? text
  match noted.unclosed with
  | unclosed :: _ => some (.error (unclosed.map .unclosed))
  | [] =>
    match ← run? text .start noted.tokens with
    | .ok state => some (.ok state.content)
    | .error fault => some (.error fault)

/-! ## Parts of the label -/

theorem textRun?_eq {text raw : List Char} {span : Span} (h : StandsAt 0 text span raw) :
    textRun? text span = some (trimAt span.start raw) := by
  rw [textRun?, slice?_eq_some_iff.2 h]
  simp only [Option.bind_eq_bind, Option.bind_some, subtract?_trimStart]
  rfl

/-- A value loses its quotes. -/
theorem unquote?_eq {quote : Char} (hquote : isQuote quote = true) (value : List Char) :
    unquote? (quote :: value ++ [quote]) = some value := by
  have hone : quote.utf8Size = 1 := by
    rcases Bool.or_eq_true_iff.1 hquote with h | h
    · rw [eq_of_beq h]
      decide
    · rw [eq_of_beq h]
      decide
  have hinner : from? (quote :: value ++ [quote]) 1 = some (value ++ [quote]) := by
    have hfrom := from?_append [quote] (value ++ [quote])
    rw [size_cons, hone] at hfrom
    exact hfrom
  have hlast : (value ++ [quote]).getLast? = some quote := List.getLast?_concat
  have hne : value ++ [quote] ≠ [] := List.append_ne_nil_of_right_ne_nil _ (List.cons_ne_nil _ _)
  have hsize : size (value ++ [quote]) = size value + quote.utf8Size := by
    rw [size_append]
    rfl
  have hslice : slice? (value ++ [quote]) ⟨0, size value⟩ = some value := by
    have hfirst := slice?_append [] [quote] value
    rwa [List.nil_append, size_nil, Nat.zero_add] at hfirst
  have hhead : (quote :: value ++ [quote]).head? = some quote := rfl
  unfold unquote?
  simp only [hinner, Option.getD_some, hlast, hhead]
  rw [if_pos ⟨trivial, hne⟩, hsize, subtract?_add]
  exact hslice

/-! ## Steps -/

/-- A token of a label that closes what it opens: it stands at its place, and the one at the end
is empty. -/
structure IsToken (text : List Char) (token : Token) : Prop extends token.IsPlaced text where
  eof : token.kind = .eof → token.text = []

variable {text : List Char} {token : Token} (htoken : IsToken text token)

include htoken

theorem tokenAt?_eq : tokenAt? text (spot token) = some token := by
  obtain ⟨kind, found, span⟩ := token
  unfold tokenAt? spot
  by_cases hkind : kind = .eof
  · have hfound : found = [] := htoken.eof hkind
    rw [if_pos hkind, hkind, hfound]
  · have hslice : slice? text span = some found := slice?_eq_some_iff.2 htoken.standsAt
    rw [if_neg hkind]
    simp only [hslice, Option.bind_eq_bind, Option.bind_some]

theorem mismatch?_eq (expected : Expected) :
    mismatch? text (spot token) expected = some (mismatch token expected) := by
  rw [mismatch?, tokenAt?_eq htoken]
  rfl

theorem surplus?_eq (expected : Expected) :
    surplus? text (spot token) expected = some (surplus token expected) := by
  rw [surplus?, tokenAt?_eq htoken]
  rfl

theorem nameAt?_eq : nameAt? text (spot token).span = some token.located := by
  have hslice : slice? text (spot token).span = some token.text :=
    slice?_eq_some_iff.2 htoken.standsAt
  rw [nameAt?, hslice]
  rfl

theorem stepContent?_eq (stack : List OpenTag) (content : List Content) :
    stepContent? text stack content (spot token) = some (stepContent stack content token) := by
  have hkind : (spot token).item = token.kind := rfl
  have hrun : textRun? text (spot token).span =
      some (trimAt token.span.start token.text) := textRun?_eq htoken.standsAt
  rw [stepContent?, stepContent, hkind]
  cases token.kind with
  | text =>
    simp only [hrun]
    rfl
  | tagOpen => rfl
  | closeTagOpen =>
    simp only [surplus?_eq htoken]
    cases stack.isEmpty <;> rfl
  | eof =>
    simp only [mismatch?_eq htoken]
    cases stack.isEmpty <;> rfl
  | name | equals | value | tagClose | selfClose | unknown => exact surplus?_eq htoken _

theorem stepAttributes?_eq (stack : List OpenTag) (content : List Content) (opening : Opening) :
    stepAttributes? text stack content opening (spot token) =
      some (stepAttributes stack content opening token) := by
  have hkind : (spot token).item = token.kind := rfl
  rw [stepAttributes?, stepAttributes, hkind]
  cases token.kind with
  | tagClose | selfClose => rfl
  | name =>
    simp only [nameAt?_eq htoken]
    rfl
  | text | tagOpen | closeTagOpen | equals | value | unknown | eof => exact mismatch?_eq htoken _

/-- A step slices the label at the place of the token and reads what stands there. -/
theorem step?_eq (state : State) : step? text state (spot token) = some (step state token) := by
  have hkind : (spot token).item = token.kind := rfl
  rw [step?, step]
  cases state.place with
  | content => exact stepContent?_eq htoken _ _
  | attributes opening => exact stepAttributes?_eq htoken _ _ _
  | tagName | closeName =>
    simp only [hkind, nameAt?_eq htoken, mismatch?_eq htoken]
    split <;> rfl
  | equals opening name | closeEnd name =>
    simp only [hkind, mismatch?_eq htoken]
    split <;> rfl
  | value opening name =>
    simp only [hkind, mismatch?_eq htoken]
    by_cases hvalue : token.kind = .value
    · obtain ⟨quote, hquote, htext⟩ := htoken.quoted hvalue
      have hslice : slice? text (spot token).span = some token.text :=
        slice?_eq_some_iff.2 htoken.standsAt
      have hunquote : unquote? token.text = some (unquote token.text) := by
        rw [htext, unquote?_eq hquote, ← htext]
      rw [if_pos hvalue, if_pos hvalue, hslice]
      simp only [Option.bind_eq_bind, Option.bind_some, hunquote]
      rfl
    · rw [if_neg hvalue, if_neg hvalue]

omit htoken

theorem run?_eq {tokens : List Token} (h : ∀ token ∈ tokens, IsToken text token) : ∀ state,
    run? text state (tokens.map spot) = some (run state tokens) := by
  induction tokens with
  | nil => exact fun _ => rfl
  | cons token tokens ih =>
    obtain ⟨hfirst, hrest⟩ := List.forall_mem_cons.1 h
    intro state
    rw [List.map_cons, run?, run, step?_eq hfirst]
    simp only [Option.bind_eq_bind, Option.bind_some]
    cases step state token with
    | error fault => rfl
    | ok next => exact ih hrest next

/-! ## Labels -/

theorem text_eq_nil_of_eof {mode : Mode} {offset : Nat} {cs : List Char} :
    ∀ token ∈ (lexFrom mode offset cs).tokens, token.kind = .eof → token.text = [] := by
  fun_induction lexFrom mode offset cs with
  | case1 mode offset =>
    intro token htoken _
    rw [List.mem_singleton.1 htoken]
  | case2 mode offset c cs piece stop tail ih =>
    intro token htoken heof
    rcases List.mem_append.1 htoken with htoken | htoken
    · obtain ⟨kind, hkind, rfl⟩ := Option.map_eq_some_iff.1 (Option.mem_toList.1 htoken)
      exact absurd (heof ▸ hkind) (kind_nextPiece_ne_eof mode c cs)
    · exact ih token htoken heof

/-- **Markup labels by offsets.** No slice and no subtraction of the reader fails, and it reads
what it should. -/
theorem read?_eq (text : List Char) : read? text = some (Markup.read text) := by
  rw [read?, Markup.read, lex?_eq]
  simp only [Option.bind_eq_bind, Option.bind_some, Noted.ofLexed]
  cases hunclosed : (lex text).unclosed with
  | cons unclosed rest => rfl
  | nil =>
    have htokens : ∀ token ∈ (lex text).tokens, IsToken text token := fun token htoken =>
      ⟨isPlaced_of_mem_lex hunclosed token htoken, text_eq_nil_of_eof token htoken⟩
    simp only [run?_eq htokens, Option.bind_some]
    cases run .start (lex text).tokens <;> rfl

end DotAttributes.Markup.Indexed
