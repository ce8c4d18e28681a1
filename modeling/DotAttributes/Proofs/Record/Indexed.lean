import DotAttributes.Proofs.Offsets
import DotAttributes.Proofs.Record.Spans
import DotAttributes.Record.Reading

/-!
# Reading record labels by offsets

The reader of record labels as one that knows kinds and places of tokens only and slices the label
where it needs characters: to see whether text is blank, for names of ports, for texts, and for
tokens that it complains about. A place is trimmed by subtracting the blanks at both ends.

Tokens tile the label, so their places are good ones, also that of a name that waits for the
bracket behind it. So each step goes as it should (`step?_eq`), and the fields are the same
(`read?_eq`).
-/

namespace DotAttributes.Record.Indexed

open Text

/-! ## The reader -/

/-- The token at a place. -/
def tokenAt? (text : List Char) (token : Located TokenKind) : Option Token := do
  let found ← slice? text token.span
  some ⟨token.item, found, token.span⟩

/-- The fault of a token that is one too many. -/
def surplus? (text : List Char) (token : Located TokenKind) (expected : Expected) :
    Option (Except (Located Fault) State) := do
  let found ← tokenAt? text token
  some (surplus found expected)

/-- Whether a token carries nothing but blanks. -/
def isBlank? (text : List Char) (token : Located TokenKind) : Option Bool :=
  if token.item.isText then do
    let piece ← slice? text token.span
    some (trim piece).isEmpty
  else some false

/-- The part of a span without the blanks at its ends; the empty span at its end if there is
nothing else. -/
def trimSpan? (text : List Char) (span : Span) : Option Span := do
  let piece ← slice? text span
  let leading ← subtract? (size piece) (size (trimStart piece))
  let trailing ← subtract? (size piece) (size (trimEnd piece))
  let start := span.start + leading
  let stop ← subtract? span.stop trailing
  some (if stop ≤ start then ⟨start, start⟩ else ⟨start, stop⟩)

/-- The text at a span without the blanks at its ends. -/
def trimmedAt? (text : List Char) (span : Span) : Option (Located (List Char)) := do
  let trimmed ← trimSpan? text span
  if trimmed.start < trimmed.stop then
    let found ← slice? text trimmed
    some ⟨found, trimmed⟩
  else some ⟨[], trimmed⟩

/-- The port between brackets: its trimmed name, or nothing, which stands for the brackets. -/
def portOf? (text : List Char) (bracket : Span) (name : Option Token) (close : Span) :
    Option PortMark :=
  let brackets := bracket.through close
  match name with
  | none => some ⟨⟨[], brackets⟩, brackets⟩
  | some token => do
    let trimmed ← trimmedAt? text token.span
    some (if trimmed.item.isEmpty then ⟨⟨[], brackets⟩, brackets⟩ else ⟨trimmed, brackets⟩)

/-- Ends the group that is being read, `field` being its last one. -/
def closeGroup? (text : List Char) (fields : List Field) (field : Field)
    (token : Located TokenKind) : List OpenGroup → Option (Except (Located Fault) State)
  | [] => surplus? text token .endOfLabel
  | ⟨before, start⟩ :: stack =>
    some (.ok
      ⟨stack, before, .afterGroup (.group (fields ++ [field]) ⟨start, token.span.stop⟩) false⟩)

/-- Reads a token of text. -/
def stepText? (text : List Char) (state : State) (token : Located TokenKind) :
    Option (Except (Located Fault) State) :=
  match state.place with
  | .start => do
    if ← isBlank? text token then some (.ok { state with place := .blank })
    else
      let trimmed ← trimmedAt? text token.span
      some (.ok { state with place := .afterText none trimmed })
  | .blank => do
    let trimmed ← trimmedAt? text token.span
    some (.ok { state with place := .afterText none trimmed })
  | .port bracket none => do
    let name ← tokenAt? text token
    some (.ok { state with place := .port bracket (some name) })
  | .port _ (some _) => surplus? text token .rightAngle
  | .afterPort port => do
    let trimmed ← trimmedAt? text token.span
    some (.ok { state with place := .afterText (some port) trimmed })
  | .afterText .. => surplus? text token .bar
  | .afterGroup group blank => do
    if (← isBlank? text token) && !blank then
      some (.ok { state with place := .afterGroup group true })
    else surplus? text token .bar

/-- Reads a token that is a mark. -/
def stepMark? (text : List Char) (state : State) (token : Located TokenKind) (mark : Mark) :
    Option (Except (Located Fault) State) :=
  match state.place.field? token.span.start, mark with
  | none, .rightAngle =>
    match state.place with
    | .port bracket name => do
      let port ← portOf? text bracket name token.span
      some (.ok { state with place := .afterPort port })
    | _ => surplus? text token .rightAngle
  | none, _ => surplus? text token .rightAngle
  | some field, .bar => some (.ok ⟨state.stack, state.fields ++ [field], .start⟩)
  | some field, .rightBrace => closeGroup? text state.fields field token state.stack
  | some _, .rightAngle => surplus? text token .bar
  | some _, .leftBrace =>
    match state.place with
    | .start | .blank => some (.ok ⟨⟨state.fields, token.span.start⟩ :: state.stack, [], .start⟩)
    | _ => surplus? text token .bar
  | some _, .leftAngle =>
    match state.place with
    | .start | .blank => some (.ok { state with place := .port token.span none })
    | _ => surplus? text token .bar

/-- Reads one token. -/
def step? (text : List Char) (state : State) (token : Located TokenKind) :
    Option (Except (Located Fault) State) :=
  match token.item with
  | .mark mark => stepMark? text state token mark
  | .text | .trailingBackslash => stepText? text state token

/-- Reads tokens one after the other. -/
def run? (text : List Char) (state : State) :
    List (Located TokenKind) → Option (Except (Located Fault) State)
  | [] => some (.ok state)
  | token :: tokens => do
    match ← step? text state token with
    | .ok next => run? text next tokens
    | .error fault => some (.error fault)

/-- The kind and the place of a token. -/
def spot (token : Token) : Located TokenKind := ⟨token.kind, token.span⟩

/-- Reads a label. -/
def read? (text : List Char) : Option (Except (Located Fault) (List Field)) := do
  match ← run? text .start ((tokens text).map spot) with
  | .ok state => some (state.finish (size text))
  | .error fault => some (.error fault)

/-! ## Trimming -/

/-- What is left in front of the blanks at the end, if there is more than blanks. -/
theorem trimEnd_eq {cs : List Char} (h : trim cs ≠ []) :
    trimEnd cs = cs.takeWhile isBlank ++ trim cs := by
  have hne : ((trimStart cs).reverse.dropWhile isBlank).isEmpty = false := by
    rw [List.isEmpty_eq_false_iff]
    exact fun hnil => h (List.reverse_eq_nil_iff.2 hnil)
  have hreverse : cs.reverse = (trimStart cs).reverse ++ (cs.takeWhile isBlank).reverse := by
    rw [← List.reverse_append, ← trimStart_eq]
  rw [trimEnd, hreverse, List.dropWhile_append, hne, if_neg Bool.false_ne_true,
    List.reverse_append, List.reverse_reverse]
  rfl

/-- Trimming leaves nothing exactly of what is blank. -/
theorem isEmpty_trim (cs : List Char) : (trim cs).isEmpty = isBlankText cs := by
  rw [Bool.eq_iff_iff, List.isEmpty_iff]
  constructor
  · exact isBlankText_of_trim_eq_nil
  · intro hblank
    have hstart : trimStart cs = [] := List.dropWhile_eq_nil_iff.2 (List.all_eq_true.1 hblank)
    rw [trim, hstart]
    rfl

variable {text piece : List Char} {span : Span}

/-- A place is trimmed as the text at it is. -/
theorem trimSpan?_eq (h : StandsAt 0 text span piece) :
    trimSpan? text span = some (trimAt span.start piece).span := by
  obtain ⟨blanks, hblanks⟩ := exists_trimEnd_append piece
  have hsize : size piece = size blanks + size (trimEnd piece) := by
    rw [Nat.add_comm, ← size_append, ← hblanks]
  have htrailing : subtract? (size piece) (size (trimEnd piece)) = some (size blanks) := by
    rw [hsize, subtract?_add]
  have hstop : subtract? span.stop (size blanks) = some (span.start + size (trimEnd piece)) := by
    rw [h.stop_eq, hsize, Nat.add_comm (size blanks), ← Nat.add_assoc, subtract?_add]
  rw [trimSpan?, slice?_eq_some_iff.2 h]
  simp only [Option.bind_eq_bind, Option.bind_some, subtract?_trimStart, htrailing, hstop]
  by_cases htrim : trim piece = []
  · have hall : ∀ c ∈ piece, isBlank c = true :=
      List.all_eq_true.1 (isBlankText_of_trim_eq_nil htrim)
    have hempty : trimEnd piece = [] := by
      rw [trimEnd, List.reverse_eq_nil_iff, List.dropWhile_eq_nil_iff]
      exact fun c hc => hall c (List.mem_reverse.1 hc)
    rw [hempty, size_nil, if_pos (Nat.add_le_add_left (Nat.zero_le _) _), trimAt, htrim]
    rfl
  · have hpos : size (trim piece) ≠ 0 := fun hzero => htrim (size_eq_zero_iff.1 hzero)
    rw [trimEnd_eq htrim, size_append, ← Nat.add_assoc, if_neg (by omega)]
    rfl

theorem trimmedAt?_eq (h : StandsAt 0 text span piece) :
    trimmedAt? text span = some (trimAt span.start piece) := by
  have htrimmed := h.trans (standsAt_trimAt span.start piece)
  have hstop := htrimmed.stop_eq
  rw [trimmedAt?, trimSpan?_eq h]
  simp only [Option.bind_eq_bind, Option.bind_some]
  by_cases hitem : (trimAt span.start piece).item = []
  · rw [hitem, size_nil, Nat.add_zero] at hstop
    rw [hstop, if_neg (Nat.lt_irrefl _), ← hitem]
  · rw [if_pos (htrimmed.start_lt_stop hitem), slice?_eq_some_iff.2 htrimmed]
    rfl

/-! ## Steps -/

/-- A name that waits for the closing bracket stands at its place, so the port is read. -/
theorem portOf?_eq {position : Nat} {bracket close : Span} {name : Option Token}
    (hport : (Place.port bracket name).IsPlaced text position) :
    portOf? text bracket name close = some (portOf bracket name close) := by
  cases name with
  | none => rfl
  | some name =>
    obtain ⟨-, -, hname, -⟩ := hport
    rw [portOf?, trimmedAt?_eq hname]
    rfl

section

variable {token : Token} (htoken : StandsAt 0 text token.span token.text)

include htoken

theorem tokenAt?_eq : tokenAt? text (spot token) = some token := by
  have hslice : slice? text (spot token).span = some token.text := slice?_eq_some_iff.2 htoken
  rw [tokenAt?, hslice]
  rfl

theorem surplus?_eq (expected : Expected) :
    surplus? text (spot token) expected = some (surplus token expected) := by
  rw [surplus?, tokenAt?_eq htoken]
  rfl

theorem isBlank?_eq : isBlank? text (spot token) = some token.isBlank := by
  have hslice : slice? text (spot token).span = some token.text := slice?_eq_some_iff.2 htoken
  have hkind : (spot token).item = token.kind := rfl
  rw [isBlank?, hslice, Token.isBlank, hkind]
  cases token.kind.isText with
  | false => rfl
  | true =>
    rw [if_pos rfl, Bool.true_and, ← isEmpty_trim]
    rfl

variable {state : State}

theorem stepText?_eq : stepText? text state (spot token) = some (stepText state token) := by
  have htrimmed : trimmedAt? text (spot token).span =
      some (trimAt token.span.start token.text) := trimmedAt?_eq htoken
  rw [stepText?, stepText]
  cases state.place with
  | start =>
    simp only [isBlank?_eq htoken, htrimmed, Option.bind_eq_bind, Option.bind_some]
    cases token.isBlank <;> rfl
  | blank | afterPort =>
    simp only [htrimmed]
    rfl
  | port bracket name =>
    cases name with
    | none =>
      simp only [tokenAt?_eq htoken]
      rfl
    | some name => exact surplus?_eq htoken _
  | afterText => exact surplus?_eq htoken _
  | afterGroup group blank =>
    simp only [isBlank?_eq htoken, surplus?_eq htoken, Option.bind_eq_bind, Option.bind_some]
    cases token.isBlank && !blank <;> rfl

theorem closeGroup?_eq (fields : List Field) (field : Field) (stack : List OpenGroup) :
    closeGroup? text fields field (spot token) stack =
      some (closeGroup fields field token stack) := by
  cases stack with
  | nil => exact surplus?_eq htoken _
  | cons group stack => rfl

theorem stepMark?_eq (hstate : state.IsPlaced text token.span.start) (mark : Mark) :
    stepMark? text state (spot token) mark = some (stepMark state token mark) := by
  have hstart : (spot token).span = token.span := rfl
  have hplace := hstate.place
  unfold stepMark? stepMark
  rw [hstart]
  cases hfield : state.place.field? token.span.start with
  | none =>
    cases mark with
    | rightAngle =>
      simp only []
      cases hport : state.place with
      | port bracket name =>
        rw [hport] at hplace
        simp only [portOf?_eq hplace]
        rfl
      | start | blank | afterPort | afterText | afterGroup => exact surplus?_eq htoken _
    | leftBrace | rightBrace | bar | leftAngle => exact surplus?_eq htoken _
  | some field =>
    cases mark with
    | bar => rfl
    | rightBrace => exact closeGroup?_eq htoken _ _ _
    | rightAngle => exact surplus?_eq htoken _
    | leftBrace | leftAngle =>
      cases state.place with
      | start | blank => rfl
      | port | afterPort | afterText | afterGroup => exact surplus?_eq htoken _

/-- A step slices the label at places where something stands, and reads that. -/
theorem step?_eq (hstate : state.IsPlaced text token.span.start) :
    step? text state (spot token) = some (step state token) := by
  have hkind : (spot token).item = token.kind := rfl
  rw [step?, step, hkind]
  cases token.kind with
  | mark mark => exact stepMark?_eq htoken hstate mark
  | text | trailingBackslash => exact stepText?_eq htoken

end

/-- A run reads what the tokens are made of, from any state that is placed in front of them. -/
theorem run?_eq {position : Nat} {rest : List Char} {tokens : List Token}
    (htiles : Tiles position rest tokens)
    (hstands : ∀ token ∈ tokens, StandsAt 0 text token.span token.text ∧ token.IsFaithful) :
    ∀ {state : State}, state.IsPlaced text position →
      run? text state (tokens.map spot) = some (run state tokens) := by
  induction htiles with
  | nil => exact fun _ => rfl
  | @cons position token after rest hspan _ ih =>
    obtain ⟨⟨htoken, hfaithful⟩, hstands⟩ := List.forall_mem_cons.1 hstands
    intro state hstate
    have hposition : position = token.span.start := by rw [hspan]; rfl
    rw [hposition] at hstate
    rw [List.map_cons, run?, run, step?_eq htoken hstate]
    simp only [Option.bind_eq_bind, Option.bind_some]
    cases hstep : step state token with
    | error fault => rfl
    | ok next =>
      have hnext := isPlaced_of_step hstate htoken hfaithful hstep
      rw [hspan] at hnext
      exact ih hstands hnext

/-- **Record labels by offsets.** No slice and no subtraction of the reader fails, and it reads
what it should. -/
theorem read?_eq (text : List Char) : read? text = some (Record.read text) := by
  rw [read?, Record.read,
    run?_eq (tiles_tokens text) (standsAt_tokens text) State.start_isPlaced]
  simp only [Option.bind_eq_bind, Option.bind_some]
  cases run .start (tokens text) <;> rfl

end DotAttributes.Record.Indexed
