import DotAttributes.Proofs.Record.Spans

/-!
# The grammar of record labels

Which labels can be read is said by a grammar over their tokens, in which `text` is any token of
text and `blank` one that has nothing but blanks:

    label := field ('|' field)*
    field := blank? '{' label '}' blank? | blank? ('<' text? '>')? text?

The reader is tied to it by what may still follow. `State.IsContinuedBy` says which tokens complete
what has been read to a label, and a step takes the first one off them (`isContinuedBy_cons_iff`).
So the reader fails at the first token with which what stands in front of it cannot be continued
to a label (`read_iff_isLabel`). What can be continued can be so by marks alone
(`isViable_iff_exists_marks`).
-/

namespace DotAttributes.Record

open Text

/-! ## The grammar -/

/-- What counts of a token: which mark it is, or that it is text, of blanks or not. -/
inductive Symbol
  | mark (mark : Mark)
  | text (blank : Bool)
deriving DecidableEq, Repr

def Token.symbol (token : Token) : Symbol :=
  match token.kind with
  | .mark mark => .mark mark
  | .text | .trailingBackslash => .text token.isBlank

/-- Text of any kind. -/
def Symbol.IsText : Symbol → Prop
  | text _ => True
  | mark _ => False

/-- Text of blanks. -/
def Symbol.IsBlank : Symbol → Prop
  | text blank => blank = true
  | mark _ => False

@[simp] theorem Symbol.isText_text (blank : Bool) : (text blank).IsText := trivial

@[simp] theorem Symbol.not_isText_mark (m : Mark) : ¬ (mark m).IsText := id

@[simp] theorem Symbol.isBlank_text_iff {blank : Bool} : (text blank).IsBlank ↔ blank = true :=
  Iff.rfl

@[simp] theorem Symbol.not_isBlank_mark (m : Mark) : ¬ (mark m).IsBlank := id

/-- One symbol of a kind, or nothing. -/
inductive IsOptional (kind : Symbol → Prop) : List Symbol → Prop
  | nil : IsOptional kind []
  | one {symbol : Symbol} (hsymbol : kind symbol) : IsOptional kind [symbol]

attribute [simp] IsOptional.nil

/-- A port, with or without a name, or nothing. -/
inductive IsOptionalPort : List Symbol → Prop
  | nil : IsOptionalPort []
  | port {name : List Symbol} (hname : IsOptional Symbol.IsText name) :
      IsOptionalPort (.mark .leftAngle :: name ++ [.mark .rightAngle])

attribute [simp] IsOptionalPort.nil

mutual

/-- The symbols of a field. -/
inductive IsField : List Symbol → Prop
  | group {before label after : List Symbol} (hbefore : IsOptional Symbol.IsBlank before)
      (hlabel : IsLabel label) (hafter : IsOptional Symbol.IsBlank after) :
      IsField (before ++ .mark .leftBrace :: label ++ .mark .rightBrace :: after)
  | leaf {before port text : List Symbol} (hbefore : IsOptional Symbol.IsBlank before)
      (hport : IsOptionalPort port) (htext : IsOptional Symbol.IsText text) :
      IsField (before ++ port ++ text)

/-- The symbols of a label: fields with bars between them. -/
inductive IsLabel : List Symbol → Prop
  | field {first : List Symbol} (hfirst : IsField first) : IsLabel first
  | cons {first rest : List Symbol} (hfirst : IsField first) (hrest : IsLabel rest) :
      IsLabel (first ++ .mark .bar :: rest)

end

/-- What can be continued to a label. -/
def IsViable (symbols : List Symbol) : Prop := ∃ rest, IsLabel (symbols ++ rest)

/-! ## One after the other -/

/-- Symbols that begin as the first condition says and go on as the last one says. -/
def Then (first last : List Symbol → Prop) (symbols : List Symbol) : Prop :=
  ∃ front rest, symbols = front ++ rest ∧ first front ∧ last rest

/-- A mark, then symbols as the condition says. -/
def MarkThen (mark : Mark) (last : List Symbol → Prop) (symbols : List Symbol) : Prop :=
  ∃ rest, symbols = .mark mark :: rest ∧ last rest

/-- Behind a field of a label: what follows the label, or a bar and the other fields. -/
def Behind (last : List Symbol → Prop) (symbols : List Symbol) : Prop :=
  last symbols ∨ MarkThen .bar (Then IsLabel last) symbols

/-- A field without blanks in front of it, then symbols as the condition says. -/
def BodyThen (last : List Symbol → Prop) (symbols : List Symbol) : Prop :=
  MarkThen .leftBrace
      (Then IsLabel (MarkThen .rightBrace (Then (IsOptional Symbol.IsBlank) last))) symbols ∨
    Then IsOptionalPort (Then (IsOptional Symbol.IsText) last) symbols

section

variable {last : List Symbol → Prop} {symbol : Symbol} {rest symbols : List Symbol} {mark : Mark}

@[simp] theorem markThen_nil : ¬ MarkThen mark last [] := by simp [MarkThen]

@[simp] theorem markThen_cons :
    MarkThen mark last (symbol :: rest) ↔ symbol = .mark mark ∧ last rest := by
  simp [MarkThen, and_assoc]

@[simp] theorem then_nil {first : List Symbol → Prop} :
    Then first last [] ↔ first [] ∧ last [] := by
  constructor
  · rintro ⟨front, rest, h, hfront, hrest⟩
    obtain ⟨rfl, rfl⟩ := List.append_eq_nil_iff.1 h.symm
    exact ⟨hfront, hrest⟩
  · rintro ⟨hfirst, hlast⟩
    exact ⟨[], [], rfl, hfirst, hlast⟩

@[simp] theorem optional_then_cons {kind : Symbol → Prop} :
    Then (IsOptional kind) last (symbol :: rest) ↔
      last (symbol :: rest) ∨ kind symbol ∧ last rest := by
  constructor
  · rintro ⟨front, rest', h, hfront, hlast⟩
    cases hfront with
    | nil =>
      rw [h]
      exact Or.inl hlast
    | one hsymbol =>
      cases h
      exact Or.inr ⟨hsymbol, hlast⟩
  · rintro (hlast | ⟨hsymbol, hlast⟩)
    · exact ⟨[], _, rfl, .nil, hlast⟩
    · exact ⟨[symbol], rest, rfl, .one hsymbol, hlast⟩

@[simp] theorem optionalPort_then_cons :
    Then IsOptionalPort last (symbol :: rest) ↔ last (symbol :: rest) ∨
      symbol = .mark .leftAngle ∧
        Then (IsOptional Symbol.IsText) (MarkThen .rightAngle last) rest := by
  constructor
  · rintro ⟨front, rest', h, hfront, hlast⟩
    cases hfront with
    | nil =>
      rw [h]
      exact Or.inl hlast
    | @port name hname =>
      cases h
      exact Or.inr ⟨rfl, name, .mark .rightAngle :: rest', by simp, hname, _, rfl, hlast⟩
  · rintro (hlast | ⟨rfl, name, rest', rfl, hname, hmark⟩)
    · exact ⟨[], _, rfl, .nil, hlast⟩
    · obtain ⟨rest', rfl, hlast⟩ := hmark
      exact ⟨_, rest', by simp, .port hname, hlast⟩

/-- A field is blanks, then what it is without them. -/
theorem field_then_iff :
    Then IsField last symbols ↔ Then (IsOptional Symbol.IsBlank) (BodyThen last) symbols := by
  constructor
  · rintro ⟨_, rest, rfl, hfield, hlast⟩
    cases hfield with
    | @group before label after hbefore hlabel hafter =>
      refine ⟨before, .mark .leftBrace :: (label ++ .mark .rightBrace :: (after ++ rest)), by simp,
        hbefore, Or.inl ⟨_, rfl, label, _, rfl, hlabel, _, rfl, ?_⟩⟩
      exact ⟨after, rest, rfl, hafter, hlast⟩
    | @leaf before port text hbefore hport htext =>
      refine ⟨before, port ++ (text ++ rest), by simp, hbefore, Or.inr ⟨port, _, rfl, hport, ?_⟩⟩
      exact ⟨text, rest, rfl, htext, hlast⟩
  · rintro ⟨before, _, rfl, hbefore, hgroup | hleaf⟩
    · obtain ⟨_, rfl, label, _, rfl, hlabel, _, rfl, after, rest, rfl, hafter, hlast⟩ := hgroup
      exact ⟨_, rest, by simp, .group hbefore hlabel hafter, hlast⟩
    · obtain ⟨port, _, rfl, hport, text, rest, rfl, htext, hlast⟩ := hleaf
      exact ⟨_, rest, by simp, .leaf hbefore hport htext, hlast⟩

theorem then_of_last {first : List Symbol → Prop} (hnil : first []) (h : last symbols) :
    Then first last symbols :=
  ⟨[], symbols, rfl, hnil, h⟩

/-- A field may be nothing at all. -/
theorem bodyThen_of_last (h : last symbols) : BodyThen last symbols :=
  Or.inr (then_of_last .nil (then_of_last .nil h))

/-- A label is its first field, then what stands behind that. -/
theorem label_then_iff : Then IsLabel last symbols ↔ Then IsField (Behind last) symbols := by
  constructor
  · rintro ⟨_, rest, rfl, hlabel, hlast⟩
    cases hlabel with
    | field hfirst => exact ⟨_, rest, rfl, hfirst, Or.inl hlast⟩
    | @cons first others hfirst hothers =>
      refine ⟨first, .mark .bar :: (others ++ rest), by simp, hfirst, Or.inr ⟨_, rfl, ?_⟩⟩
      exact ⟨others, rest, rfl, hothers, hlast⟩
  · rintro ⟨first, _, rfl, hfirst, hlast | ⟨_, rfl, others, rest, rfl, hothers, hlast⟩⟩
    · exact ⟨first, _, rfl, .field hfirst, hlast⟩
    · exact ⟨_, rest, by simp, .cons hfirst hothers, hlast⟩

end

/-! ## What may follow -/

/-- What may follow a label in so many open groups: nothing at the top, otherwise the end of the
group and what may stand behind it. -/
def MayFollow : Nat → List Symbol → Prop
  | 0 => (· = [])
  | depth + 1 => MarkThen .rightBrace (Then (IsOptional Symbol.IsBlank) (Behind (MayFollow depth)))

/-- Symbols that complete a field, then symbols as the condition says. -/
def Place.IsContinuedBy (last : List Symbol → Prop) : Place → List Symbol → Prop
  | start => Then IsField last
  | blank => BodyThen last
  | port _ none =>
    Then (IsOptional Symbol.IsText) (MarkThen .rightAngle (Then (IsOptional Symbol.IsText) last))
  | port _ (some _) => MarkThen .rightAngle (Then (IsOptional Symbol.IsText) last)
  | afterPort _ => Then (IsOptional Symbol.IsText) last
  | afterText .. | afterGroup _ true => last
  | afterGroup _ false => Then (IsOptional Symbol.IsBlank) last

/-- Symbols that complete what has been read to a label. -/
def State.IsContinuedBy (state : State) : List Symbol → Prop :=
  state.place.IsContinuedBy (Behind (MayFollow state.stack.length))

@[simp] theorem behind_mayFollow_nil {depth : Nat} :
    Behind (MayFollow depth) [] ↔ depth = 0 := by
  cases depth <;> simp [Behind, MayFollow]

@[simp] theorem behind_mayFollow_cons {depth : Nat} {symbol : Symbol} {rest : List Symbol} :
    Behind (MayFollow depth) (symbol :: rest) ↔
      (symbol = .mark .rightBrace ∧ ∃ outer, depth = outer + 1 ∧
        Then (IsOptional Symbol.IsBlank) (Behind (MayFollow outer)) rest) ∨
      symbol = .mark .bar ∧ Then IsField (Behind (MayFollow depth)) rest := by
  rw [← label_then_iff]
  cases depth <;> simp [Behind, MayFollow]

section

variable (stack : List OpenGroup) (fields : List Field) {symbols : List Symbol}

@[simp] theorem isContinuedBy_start_iff :
    (State.mk stack fields .start).IsContinuedBy symbols ↔
      Then (IsOptional Symbol.IsBlank) (BodyThen (Behind (MayFollow stack.length))) symbols :=
  field_then_iff

@[simp] theorem isContinuedBy_blank_iff :
    (State.mk stack fields .blank).IsContinuedBy symbols ↔
      BodyThen (Behind (MayFollow stack.length)) symbols := Iff.rfl

@[simp] theorem isContinuedBy_port_none_iff (bracket : Span) :
    (State.mk stack fields (.port bracket none)).IsContinuedBy symbols ↔
      Then (IsOptional Symbol.IsText) (MarkThen .rightAngle
        (Then (IsOptional Symbol.IsText) (Behind (MayFollow stack.length)))) symbols := Iff.rfl

@[simp] theorem isContinuedBy_port_some_iff (bracket : Span) (name : Token) :
    (State.mk stack fields (.port bracket (some name))).IsContinuedBy symbols ↔
      MarkThen .rightAngle
        (Then (IsOptional Symbol.IsText) (Behind (MayFollow stack.length))) symbols := Iff.rfl

@[simp] theorem isContinuedBy_afterPort_iff (port : PortMark) :
    (State.mk stack fields (.afterPort port)).IsContinuedBy symbols ↔
      Then (IsOptional Symbol.IsText) (Behind (MayFollow stack.length)) symbols := Iff.rfl

@[simp] theorem isContinuedBy_afterText_iff (port : Option PortMark) (text : Located (List Char)) :
    (State.mk stack fields (.afterText port text)).IsContinuedBy symbols ↔
      Behind (MayFollow stack.length) symbols := Iff.rfl

@[simp] theorem isContinuedBy_afterGroup_false_iff (group : Field) :
    (State.mk stack fields (.afterGroup group false)).IsContinuedBy symbols ↔
      Then (IsOptional Symbol.IsBlank) (Behind (MayFollow stack.length)) symbols := Iff.rfl

@[simp] theorem isContinuedBy_afterGroup_true_iff (group : Field) :
    (State.mk stack fields (.afterGroup group true)).IsContinuedBy symbols ↔
      Behind (MayFollow stack.length) symbols := Iff.rfl

end

theorem start_isContinuedBy_iff {symbols : List Symbol} :
    State.start.IsContinuedBy symbols ↔ IsLabel symbols := by
  have hstart : State.start.IsContinuedBy symbols ↔ Then IsLabel (MayFollow 0) symbols :=
    label_then_iff.symm
  rw [hstart]
  constructor
  · rintro ⟨label, rest, rfl, hlabel, rfl⟩
    rwa [List.append_nil]
  · intro hlabel
    exact ⟨symbols, [], (List.append_nil _).symm, hlabel, rfl⟩

/-! ## One token -/

section

variable {stack : List OpenGroup} {fields : List Field} {place : Place} {field : Field}
  {token : Token} {rest : List Symbol} {mark : Mark}

theorem isContinuedBy_text_iff :
    (State.mk stack fields place).IsContinuedBy (.text token.isBlank :: rest) ↔
      ∃ next, stepText ⟨stack, fields, place⟩ token = .ok next ∧ next.IsContinuedBy rest := by
  cases place with
  | start =>
    cases hblank : token.isBlank with
    | false => simp [stepText, BodyThen, hblank]
    | true =>
      -- the blanks may be the text of the field, or stand in front of it
      have hempty : Behind (MayFollow stack.length) rest →
          BodyThen (Behind (MayFollow stack.length)) rest := bodyThen_of_last
      simpa [stepText, BodyThen, hblank] using hempty
  | blank => simp [stepText, BodyThen]
  | port bracket name => cases name <;> simp [stepText, surplus]
  | afterPort port => simp [stepText]
  | afterText port text => simp [stepText, surplus]
  | afterGroup group blank =>
    cases blank <;> cases hblank : token.isBlank <;>
      simp [stepText, surplus, hblank]

/-- A field that has been read is ended by what may stand behind it. -/
theorem isContinuedBy_end_iff {next : Nat} (hfield : place.field? next = some field)
    (hbrace : mark ≠ .leftBrace) (hangle : mark ≠ .leftAngle) :
    (State.mk stack fields place).IsContinuedBy (.mark mark :: rest) ↔
      Behind (MayFollow stack.length) (.mark mark :: rest) := by
  cases place with
  | start | blank => simp [BodyThen, hbrace, hangle]
  | port bracket name => cases hfield
  | afterPort port => simp
  | afterText port text => exact Iff.rfl
  | afterGroup group blank => cases blank <;> simp

/-- A group or a port begins at the beginning of a field only. -/
theorem isContinuedBy_open_iff {next : Nat} (hfield : place.field? next = some field)
    (hmark : mark = .leftBrace ∨ mark = .leftAngle) :
    (State.mk stack fields place).IsContinuedBy (.mark mark :: rest) ↔
      (place = .start ∨ place = .blank) ∧
        BodyThen (Behind (MayFollow stack.length)) (.mark mark :: rest) := by
  cases place with
  | start | blank => simp
  | port bracket name => cases hfield
  | afterPort port => rcases hmark with rfl | rfl <;> simp
  | afterText port text => rcases hmark with rfl | rfl <;> simp
  | afterGroup group blank => rcases hmark with rfl | rfl <;> cases blank <;> simp

theorem isContinuedBy_closeGroup_iff :
    Behind (MayFollow stack.length) (.mark .rightBrace :: rest) ↔
      ∃ next, closeGroup fields field token stack = .ok next ∧ next.IsContinuedBy rest := by
  cases stack with
  | nil => simp [closeGroup, surplus]
  | cons group stack => simp [closeGroup]

theorem isContinuedBy_mark_iff :
    (State.mk stack fields place).IsContinuedBy (.mark mark :: rest) ↔
      ∃ next, stepMark ⟨stack, fields, place⟩ token mark = .ok next ∧
        next.IsContinuedBy rest := by
  cases hfield : place.field? token.span.start with
  | none =>
    -- inside the brackets of a port
    cases place with
    | port bracket name =>
      cases mark <;> cases name <;> simp [stepMark, hfield, surplus]
    | _ => cases hfield
  | some field =>
    cases mark with
    | bar =>
      rw [isContinuedBy_end_iff hfield Mark.noConfusion Mark.noConfusion]
      simp [stepMark, hfield, field_then_iff]
    | rightBrace =>
      rw [isContinuedBy_end_iff hfield Mark.noConfusion Mark.noConfusion]
      simp only [stepMark, hfield]
      exact isContinuedBy_closeGroup_iff
    | rightAngle =>
      rw [isContinuedBy_end_iff hfield Mark.noConfusion Mark.noConfusion]
      simp [stepMark, hfield, surplus]
    | leftBrace =>
      have hlabel : Then IsLabel (MayFollow (stack.length + 1)) rest ↔
          Then (IsOptional Symbol.IsBlank)
            (BodyThen (Behind (MayFollow (stack.length + 1)))) rest :=
        label_then_iff.trans field_then_iff
      rw [isContinuedBy_open_iff hfield (Or.inl rfl)]
      cases place with
      | start | blank => simpa [stepMark, hfield, BodyThen, MayFollow] using hlabel
      | _ => simp [stepMark, hfield, surplus]
    | leftAngle =>
      rw [isContinuedBy_open_iff hfield (Or.inr rfl)]
      cases place with
      | start | blank => simp [stepMark, hfield, BodyThen]
      | _ => simp [stepMark, hfield, surplus]

end

/-! ## Tokens -/

variable {state : State} {rest : List Symbol}

/-- **One step.** The reader takes a token exactly if it may come next, and then goes on with
what may come behind it. -/
theorem isContinuedBy_cons_iff {token : Token} :
    state.IsContinuedBy (token.symbol :: rest) ↔
      ∃ next, step state token = .ok next ∧ next.IsContinuedBy rest := by
  cases hkind : token.kind with
  | mark mark =>
    simp only [Token.symbol, step, hkind]
    exact isContinuedBy_mark_iff
  | text | trailingBackslash =>
    simp only [Token.symbol, step, hkind]
    exact isContinuedBy_text_iff

/-- **A run.** The same holds of any number of tokens. -/
theorem isContinuedBy_append_iff {tokens : List Token} :
    state.IsContinuedBy (tokens.map Token.symbol ++ rest) ↔
      ∃ next, run state tokens = .ok next ∧ next.IsContinuedBy rest := by
  induction tokens generalizing state with
  | nil => simp [run]
  | cons token tokens ih =>
    rw [List.map_cons, List.cons_append, isContinuedBy_cons_iff, run]
    cases step state token with
    | ok next => simp [ih]
    | error fault => simp

/-! ## The end -/

/-- A field that has been read may be followed at once by what may stand behind it. -/
theorem isContinuedBy_of_field? {stop : Nat} {field : Field}
    (hfield : state.place.field? stop = some field)
    (hrest : Behind (MayFollow state.stack.length) rest) : state.IsContinuedBy rest := by
  obtain ⟨stack, fields, place⟩ := state
  cases place with
  | start => exact field_then_iff.2 (then_of_last .nil (bodyThen_of_last hrest))
  | blank => exact bodyThen_of_last hrest
  | port bracket name => cases hfield
  | afterPort port => exact then_of_last .nil hrest
  | afterText port text => exact hrest
  | afterGroup group blank =>
    cases blank with
    | false => exact then_of_last .nil hrest
    | true => exact hrest

/-- An open port needs its bracket first. -/
theorem isContinuedBy_of_port {stop : Nat} (hfield : state.place.field? stop = none)
    (hrest : Behind (MayFollow state.stack.length) rest) :
    state.IsContinuedBy (.mark .rightAngle :: rest) := by
  obtain ⟨stack, fields, place⟩ := state
  have hclose : MarkThen .rightAngle (Then (IsOptional Symbol.IsText)
      (Behind (MayFollow stack.length))) (.mark .rightAngle :: rest) :=
    ⟨rest, rfl, then_of_last .nil hrest⟩
  cases place with
  | port bracket name =>
    cases name with
    | none => exact then_of_last .nil hclose
    | some name => exact hclose
  | _ => cases hfield

/-- The marks that close open groups may stand behind a field. -/
theorem behind_replicate (depth : Nat) :
    Behind (MayFollow depth) ((List.replicate depth Mark.rightBrace).map Symbol.mark) := by
  induction depth with
  | zero => exact Or.inl rfl
  | succ depth ih => exact Or.inl ⟨_, rfl, then_of_last .nil ih⟩

/-- What has been read is a label exactly if nothing needs to follow. -/
theorem isContinuedBy_nil_iff (stop : Nat) :
    state.IsContinuedBy [] ↔ ∃ label, state.finish stop = .ok label := by
  obtain ⟨stack, fields, place⟩ := state
  unfold State.finish
  cases hfield : place.field? stop with
  | none =>
    cases place with
    | port bracket name => cases name <;> simp
    | _ => cases hfield
  | some field =>
    have hend : (State.mk stack fields place).IsContinuedBy [] ↔ stack = [] := by
      cases place with
      | port bracket name => cases hfield
      | afterGroup group blank => cases blank <;> simp
      | _ => simp [BodyThen]
    rw [hend]
    cases stack <;> simp

/-- What the end comes too early for lacks a mark, with which it can be continued. -/
theorem exists_marks_of_finish_error {stop : Nat} {fault : Located Fault}
    (h : state.finish stop = .error fault) :
    ∃ mark marks, (mark = .rightBrace ∨ mark = .rightAngle) ∧
      fault = ⟨.missing mark, Span.empty stop⟩ ∧
      state.IsContinuedBy ((mark :: marks).map Symbol.mark) := by
  have hclose := behind_replicate state.stack.length
  unfold State.finish at h
  split at h
  · next hfield =>
    cases h
    exact ⟨.rightAngle, _, Or.inr rfl, rfl, isContinuedBy_of_port hfield hclose⟩
  · next field hfield =>
    split at h
    · cases h
    · next hstack =>
      cases h
      obtain ⟨group, stack, hcons⟩ := List.exists_cons_of_ne_nil (mt List.isEmpty_iff.2 hstack)
      have hend := isContinuedBy_of_field? hfield hclose
      rw [hcons, List.length_cons, List.replicate_succ] at hend
      exact ⟨.rightBrace, _, Or.inl rfl, rfl, hend⟩

/-- Whatever has been read, some marks complete it. -/
theorem exists_marks (state : State) :
    ∃ marks : List Mark, state.IsContinuedBy (marks.map Symbol.mark) := by
  cases hfinish : state.finish 0 with
  | ok label => exact ⟨[], (isContinuedBy_nil_iff 0).2 ⟨label, hfinish⟩⟩
  | error fault =>
    obtain ⟨mark, marks, -, -, hmarks⟩ := exists_marks_of_finish_error hfinish
    exact ⟨mark :: marks, hmarks⟩

/-! ## Labels -/

/-- What can be continued to a label is what can be read. -/
theorem isViable_iff {front : List Token} :
    IsViable (front.map Token.symbol) ↔ ∃ state, run .start front = .ok state := by
  simp only [IsViable, ← start_isContinuedBy_iff, isContinuedBy_append_iff]
  constructor
  · rintro ⟨rest, state, hrun, -⟩
    exact ⟨state, hrun⟩
  · rintro ⟨state, hrun⟩
    obtain ⟨marks, hmarks⟩ := exists_marks state
    exact ⟨_, state, hrun, hmarks⟩

/-- What can be continued to a label can be so by marks alone. -/
theorem isViable_iff_exists_marks {front : List Token} :
    IsViable (front.map Token.symbol) ↔
      ∃ marks : List Mark, IsLabel (front.map Token.symbol ++ marks.map Symbol.mark) := by
  constructor
  · intro h
    obtain ⟨state, hrun⟩ := isViable_iff.1 h
    obtain ⟨marks, hmarks⟩ := exists_marks state
    exact ⟨marks, start_isContinuedBy_iff.1 (isContinuedBy_append_iff.2 ⟨state, hrun, hmarks⟩)⟩
  · rintro ⟨marks, hmarks⟩
    exact ⟨_, hmarks⟩

/-- A label can be read exactly if its tokens derive from the grammar. -/
theorem exists_read_eq_ok_iff {cs : List Char} :
    (∃ label, read cs = .ok label) ↔ IsLabel ((tokens cs).map Token.symbol) := by
  rw [← start_isContinuedBy_iff, ← List.append_nil ((tokens cs).map Token.symbol),
    isContinuedBy_append_iff]
  simp only [isContinuedBy_nil_iff (size cs), read]
  cases run .start (tokens cs) <;> simp

/-- **The grammar.** A label can be read exactly if its tokens derive from the grammar. If they do
not, either there is a token too many, the first one with which the tokens in front of it cannot
be continued to a label; or all tokens together can be, but only by a mark that is missing, and
the fault is at the end. -/
theorem read_iff_isLabel (cs : List Char) :
    ((∃ label, read cs = .ok label) ↔ IsLabel ((tokens cs).map Token.symbol)) ∧
      ∀ fault, read cs = .error fault →
        (∃ before token after expected, tokens cs = before ++ token :: after ∧
          fault = ⟨.extraneous token expected, token.span⟩ ∧
          IsViable (before.map Token.symbol) ∧
          ¬ IsViable ((before ++ [token]).map Token.symbol)) ∨
        ∃ mark, (mark = .rightBrace ∨ mark = .rightAngle) ∧
          fault = ⟨.missing mark, Span.empty (size cs)⟩ ∧
          IsViable ((tokens cs).map Token.symbol ++ [.mark mark]) ∧
          ¬ IsLabel ((tokens cs).map Token.symbol) := by
  refine ⟨exists_read_eq_ok_iff, fun fault h => ?_⟩
  have hno : ¬ IsLabel ((tokens cs).map Token.symbol) := by
    rw [← exists_read_eq_ok_iff, h]
    rintro ⟨label, ⟨⟩⟩
  simp only [read] at h
  split at h
  · next state hrun =>
    obtain ⟨mark, marks, hmark, rfl, hmarks⟩ := exists_marks_of_finish_error h
    refine Or.inr ⟨mark, hmark, rfl, ⟨marks.map Symbol.mark, ?_⟩, hno⟩
    have hlabel := isContinuedBy_append_iff.2 ⟨state, hrun, hmarks⟩
    simpa using start_isContinuedBy_iff.1 hlabel
  · next hrun =>
    cases h
    obtain ⟨before, token, after, state, hsplit, hbefore, hstep⟩ := exists_token_of_run_error hrun
    obtain ⟨expected, rfl⟩ := exists_expected_of_step_error hstep
    refine Or.inl ⟨before, token, after, expected, hsplit, rfl, isViable_iff.2 ⟨state, hbefore⟩, ?_⟩
    rintro ⟨rest, hlabel⟩
    rw [List.map_append, List.append_assoc, ← start_isContinuedBy_iff,
      isContinuedBy_append_iff] at hlabel
    obtain ⟨state', hrun', hrest⟩ := hlabel
    cases hbefore.symm.trans hrun'
    obtain ⟨next, hnext, -⟩ := isContinuedBy_cons_iff.1 hrest
    cases hstep.symm.trans hnext

/-- Behind a group there are blanks at most. -/
theorem read_iff_isLabel_textBehindGroup :
    ∃ before token after, tokens ['{', 'a', '}', ' ', 'b'] = before ++ token :: after ∧
      read ['{', 'a', '}', ' ', 'b'] = .error ⟨.extraneous token .bar, ⟨3, 5⟩⟩ ∧
      IsViable (before.map Token.symbol) ∧ ¬ IsViable ((before ++ [token]).map Token.symbol) := by
  have hread : read ['{', 'a', '}', ' ', 'b'] =
      .error ⟨.extraneous ⟨.text, [' ', 'b'], ⟨3, 5⟩⟩ .bar, ⟨3, 5⟩⟩ := rfl
  rcases (read_iff_isLabel ['{', 'a', '}', ' ', 'b']).2 _ hread with
    ⟨before, token, after, expected, hsplit, hfault, hviable, hno⟩ | ⟨mark, -, hfault, -⟩
  · cases hfault
    exact ⟨before, _, after, hsplit, hread, hviable, hno⟩
  · cases hfault

end DotAttributes.Record
