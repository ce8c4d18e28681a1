import DotAttributes.Record.Token

/-!
# Reading record labels

A record is a row of fields, separated by bars. A field is a group, which is a record in
braces, or a leaf: text, with a port in angle brackets in front of it. Ports may be without
a name and leaves without text; blanks around groups, ports and texts do not count.

The reader goes through the tokens one by one. What it has read so far is a stack of open
groups, the finished fields of the innermost one, and the field that is being read.

* `Record.Field` is a group or a leaf, `Record.State` what has been read so far.
* `Record.step` reads one token, `Record.read` a whole label.
-/

namespace DotAttributes.Record

/-! ## Records -/

/-- A leaf of a record. The place of a port is that of its name, or of its brackets when it
has no name; the place of a leaf is that of port and text together. -/
structure Leaf where
  port : Option (Located (List Char))
  text : List Char
  span : Span
deriving DecidableEq, Repr

/-- A field of a record. -/
inductive Field
  | leaf (leaf : Leaf)
  | group (fields : List Field) (span : Span)

mutual

/-- The leaves of a field from left to right. -/
def Field.leaves : Field → List Leaf
  | .leaf leaf => [leaf]
  | .group fields _ => leavesOf fields

/-- The leaves of fields from left to right. -/
def leavesOf : List Field → List Leaf
  | [] => []
  | field :: fields => field.leaves ++ leavesOf fields

end

/-! ## Faults -/

/-- What may follow at the place of a fault. -/
inductive Expected
  | endOfLabel
  | bar
  | rightAngle
deriving DecidableEq, Repr

/-- The wording of what was expected. -/
def Expected.wording : Expected → String
  | endOfLabel => "<EOF>"
  | bar => "'|'"
  | rightAngle => "'>'"

/-- Why a label cannot be read. -/
inductive Fault
  | extraneous (found : Token) (expected : Expected)
  | missing (mark : Mark)
deriving DecidableEq, Repr

/-- The wording of a fault. -/
def Fault.detail : Fault → String
  | extraneous token expected =>
    let found := String.ofList token.text
    let wanted := expected.wording
    s!"extraneous input '{found}' expecting {wanted}"
  | missing mark =>
    let wanted := String.singleton mark.char
    s!"missing '{wanted}' at '<EOF>'"

/-! ## Reading tokens -/

/-- A port that has been read, with the place of its brackets. -/
structure PortMark where
  port : Located (List Char)
  brackets : Span
deriving DecidableEq, Repr

/-- How far the field that is being read has come. -/
inductive Place
  /-- nothing of it has been read -/
  | start
  /-- blanks have been read -/
  | blank
  /-- the bracket that opens a port, and the name behind it -/
  | port (bracket : Span) (name : Option Token)
  /-- a port -/
  | afterPort (port : PortMark)
  /-- text, with or without a port -/
  | afterText (port : Option PortMark) (text : Located (List Char))
  /-- a group, with or without blanks behind it -/
  | afterGroup (group : Field) (blank : Bool)

/-- An open group: the fields in front of it on its own level, and where it starts. -/
structure OpenGroup where
  before : List Field
  start : Nat

/-- What has been read so far: the open groups, innermost first, the finished fields of the
innermost one, and the field that is being read. -/
structure State where
  stack : List OpenGroup
  fields : List Field
  place : Place

/-- Nothing has been read. -/
def State.start : State := ⟨[], [], .start⟩

/-- The place of a leaf: port and text together. One that has neither stands where the next
token starts. -/
def leafSpan (next : Nat) (port : Option PortMark) (text : Located (List Char)) : Span :=
  match port, text.item with
  | some p, [] => p.brackets
  | some p, _ => p.brackets.through text.span
  | none, [] => Span.empty next
  | none, _ => text.span

/-- The field that has been read when the next token starts at `next`; there is none inside
the brackets of a port. -/
def Place.field? (next : Nat) : Place → Option Field
  | start | blank => some (.leaf ⟨none, [], Span.empty next⟩)
  | port .. => none
  | afterPort p => some (.leaf ⟨some p.port, [], p.brackets⟩)
  | afterText p text => some (.leaf ⟨p.map PortMark.port, text.item, leafSpan next p text⟩)
  | afterGroup group _ => some group

/-- The port between brackets: its trimmed name, or nothing, which stands for the brackets. -/
def portOf (bracket : Span) (name : Option Token) (close : Span) : PortMark :=
  let brackets := bracket.through close
  let trimmed := (name.map fun token => Text.trimAt token.span.start token.text).getD
    ⟨[], brackets⟩
  if trimmed.item.isEmpty then ⟨⟨[], brackets⟩, brackets⟩ else ⟨trimmed, brackets⟩

/-- The fault of a token that is one too many. -/
def surplus (token : Token) (expected : Expected) : Except (Located Fault) State :=
  .error ⟨.extraneous token expected, token.span⟩

/-- Ends the group that is being read, `field` being its last one. -/
def closeGroup (fields : List Field) (field : Field) (token : Token) :
    List OpenGroup → Except (Located Fault) State
  | [] => surplus token .endOfLabel
  | ⟨before, start⟩ :: stack =>
    .ok ⟨stack, before, .afterGroup (.group (fields ++ [field]) ⟨start, token.span.stop⟩) false⟩

/-- Reads a token of text. -/
def stepText (state : State) (token : Token) : Except (Located Fault) State :=
  let text := Text.trimAt token.span.start token.text
  match state.place with
  | .start =>
    .ok { state with place := if token.isBlank then .blank else .afterText none text }
  | .blank => .ok { state with place := .afterText none text }
  | .port bracket none => .ok { state with place := .port bracket (some token) }
  | .port _ (some _) => surplus token .rightAngle
  | .afterPort port => .ok { state with place := .afterText (some port) text }
  | .afterText .. => surplus token .bar
  | .afterGroup group blank =>
    if token.isBlank && !blank then .ok { state with place := .afterGroup group true }
    else surplus token .bar

/-- Reads a token that is a mark. -/
def stepMark (state : State) (token : Token) (mark : Mark) : Except (Located Fault) State :=
  match state.place.field? token.span.start, mark with
  | none, .rightAngle =>
    match state.place with
    | .port bracket name => .ok { state with place := .afterPort (portOf bracket name token.span) }
    | _ => surplus token .rightAngle
  | none, _ => surplus token .rightAngle
  | some field, .bar => .ok ⟨state.stack, state.fields ++ [field], .start⟩
  | some field, .rightBrace => closeGroup state.fields field token state.stack
  | some _, .rightAngle => surplus token .bar
  | some _, .leftBrace =>
    match state.place with
    | .start | .blank => .ok ⟨⟨state.fields, token.span.start⟩ :: state.stack, [], .start⟩
    | _ => surplus token .bar
  | some _, .leftAngle =>
    match state.place with
    | .start | .blank => .ok { state with place := .port token.span none }
    | _ => surplus token .bar

/-- Reads one token. -/
def step (state : State) (token : Token) : Except (Located Fault) State :=
  match token.kind with
  | .mark mark => stepMark state token mark
  | .text | .trailingBackslash => stepText state token

/-- Reads tokens one after the other. -/
def run (state : State) : List Token → Except (Located Fault) State
  | [] => .ok state
  | token :: tokens =>
    match step state token with
    | .ok next => run next tokens
    | .error fault => .error fault

/-- The fields of a label that ends at `stop`, if nothing is left open. -/
def State.finish (stop : Nat) (state : State) : Except (Located Fault) (List Field) :=
  match state.place.field? stop with
  | none => .error ⟨.missing .rightAngle, Span.empty stop⟩
  | some field =>
    if state.stack.isEmpty then .ok (state.fields ++ [field])
    else .error ⟨.missing .rightBrace, Span.empty stop⟩

/-- Reads a label. -/
def read (cs : List Char) : Except (Located Fault) (List Field) :=
  match run .start (tokens cs) with
  | .ok state => state.finish (Text.size cs)
  | .error fault => .error fault

end DotAttributes.Record
