import DotAttributes.Markup.Token

/-!
# Reading markup labels

A label is read from its tokens into a tree of text and tags. The reader goes through the
tokens one by one; what it has read so far is a stack of open tags, the content in front of
the reading place, and the part of a tag that is being read. Whether a tag is closed by its
own name is left to the checks: any close tag closes the innermost open tag.

* `Markup.Content` is text or a tag, `Markup.State` what has been read so far.
* `Markup.step` reads one token, `Markup.read` a whole label.
-/

namespace DotAttributes.Markup

/-! ## Trees -/

/-- An attribute of a tag. The value is without its quotes, its place with them. -/
structure Attribute where
  name : Located (List Char)
  value : Located (List Char)
deriving DecidableEq, Repr

/-- What stands on one level of a label: a run of text, trimmed, or a tag. A tag without a
close name is one that closes itself. -/
inductive Content
  | text (run : Located (List Char))
  | tag (name : Located (List Char)) (attributes : List Attribute)
      (close : Option (Located (List Char))) (children : List Content)

/-- Whether content is more than blanks. -/
def Content.isSolid : Content → Bool
  | text run => !run.item.isEmpty
  | tag .. => true

/-! ## Faults -/

/-- What the reader was waiting for. -/
inductive Expected
  | endOfLabel
  | content
  | tagName
  | equals
  | value
  | tagEnd
  | closeTag
deriving DecidableEq, Repr

/-- The wording of what was expected. -/
def Expected.wording : Expected → String
  | endOfLabel => "<EOF>"
  | content => "'<'"
  | tagName => "a tag name"
  | equals => "'='"
  | value => "a quoted value"
  | tagEnd => "'>'"
  | closeTag => "'</'"

/-- Why a label cannot be read. -/
inductive Fault
  | unclosed (what : Unclosed)
  | mismatched (found : Token) (expected : Expected)
  | extraneous (found : Token) (expected : Expected)
deriving DecidableEq, Repr

/-- Names a token by its characters. -/
def Token.describe (token : Token) : String :=
  if token.kind = .eof then "<EOF>" else String.ofList token.text

/-- The wording of a fault. -/
def Fault.detail : Fault → String
  | unclosed .comment => "Unterminated comment."
  | unclosed .value => "Unterminated attribute value."
  | mismatched token expected =>
    let found := token.describe
    let wanted := expected.wording
    s!"Mismatched input '{found}' expecting {wanted}."
  | extraneous token expected =>
    let found := token.describe
    let wanted := expected.wording
    s!"Extraneous input '{found}' expecting {wanted}."

/-! ## Reading tokens -/

/-- A tag whose opening part is being read, or has been. -/
structure Opening where
  name : Located (List Char)
  attributes : List Attribute
deriving DecidableEq, Repr

/-- An open tag, with the content that stands in front of it on its own level. -/
structure OpenTag where
  opening : Opening
  before : List Content

/-- What the next token belongs to. -/
inductive Place
  /-- the content of a level -/
  | content
  /-- the name behind `<` -/
  | tagName
  /-- the attributes of a tag -/
  | attributes (opening : Opening)
  /-- the equals sign behind the name of an attribute -/
  | equals (opening : Opening) (name : Located (List Char))
  /-- the value behind the equals sign -/
  | value (opening : Opening) (name : Located (List Char))
  /-- the name behind `</` -/
  | closeName
  /-- the end of a close tag -/
  | closeEnd (name : Located (List Char))

/-- What has been read so far: the open tags, innermost first, the content of the innermost
one, and the place of the next token. -/
structure State where
  stack : List OpenTag
  content : List Content
  place : Place

/-- Nothing has been read. -/
def State.start : State := ⟨[], [], .content⟩

/-- A token as something located. -/
def Token.located (token : Token) : Located (List Char) := ⟨token.text, token.span⟩

/-- A value without the quotes around it. -/
def unquote (cs : List Char) : List Char := cs.tail.dropLast

/-- The fault of a token that is not the one expected. -/
def mismatch (token : Token) (expected : Expected) : Except (Located Fault) State :=
  .error ⟨.mismatched token expected, token.span⟩

/-- The fault of a token that is one too many. -/
def surplus (token : Token) (expected : Expected) : Except (Located Fault) State :=
  .error ⟨.extraneous token expected, token.span⟩

/-- Reads a token of the content of a level. -/
def stepContent (stack : List OpenTag) (content : List Content) (token : Token) :
    Except (Located Fault) State :=
  match token.kind with
  | .text => .ok ⟨stack, content ++ [.text (Text.trimAt token.span.start token.text)], .content⟩
  | .tagOpen => .ok ⟨stack, content, .tagName⟩
  | .closeTagOpen =>
    if stack.isEmpty then surplus token .endOfLabel else .ok ⟨stack, content, .closeName⟩
  | .eof => if stack.isEmpty then .ok ⟨stack, content, .content⟩ else mismatch token .closeTag
  | _ => surplus token .content

/-- Reads a token of the attributes of a tag. -/
def stepAttributes (stack : List OpenTag) (content : List Content) (opening : Opening)
    (token : Token) : Except (Located Fault) State :=
  match token.kind with
  | .tagClose => .ok ⟨⟨opening, content⟩ :: stack, [], .content⟩
  | .selfClose =>
    .ok ⟨stack, content ++ [.tag opening.name opening.attributes none []], .content⟩
  | .name => .ok ⟨stack, content, .equals opening token.located⟩
  | _ => mismatch token .tagEnd

/-- Closes the innermost open tag. -/
def closeTag (close : Located (List Char)) (content : List Content) : List OpenTag → State
  | [] => ⟨[], content, .content⟩
  | ⟨opening, before⟩ :: stack =>
    ⟨stack, before ++ [.tag opening.name opening.attributes (some close) content], .content⟩

/-- Reads one token. -/
def step (state : State) (token : Token) : Except (Located Fault) State :=
  match state.place with
  | .content => stepContent state.stack state.content token
  | .tagName =>
    if token.kind = .name then .ok { state with place := .attributes ⟨token.located, []⟩ }
    else mismatch token .tagName
  | .attributes opening => stepAttributes state.stack state.content opening token
  | .equals opening name =>
    if token.kind = .equals then .ok { state with place := .value opening name }
    else mismatch token .equals
  | .value opening name =>
    if token.kind = .value then
      let attr : Attribute := ⟨name, ⟨unquote token.text, token.span⟩⟩
      let opening := { opening with attributes := opening.attributes ++ [attr] }
      .ok { state with place := .attributes opening }
    else mismatch token .value
  | .closeName =>
    if token.kind = .name then .ok { state with place := .closeEnd token.located }
    else mismatch token .tagName
  | .closeEnd name =>
    if token.kind = .tagClose then .ok (closeTag name state.content state.stack)
    else mismatch token .tagEnd

/-- Reads tokens one after the other. -/
def run (state : State) : List Token → Except (Located Fault) State
  | [] => .ok state
  | token :: tokens =>
    match step state token with
    | .ok next => run next tokens
    | .error fault => .error fault

/-- Reads a label. What it does not close is reported before anything else. -/
def read (cs : List Char) : Except (Located Fault) (List Content) :=
  let lexed := lex cs
  match lexed.unclosed with
  | unclosed :: _ => .error (unclosed.map .unclosed)
  | [] =>
    match run .start lexed.tokens with
    | .ok state => .ok state.content
    | .error fault => .error fault

end DotAttributes.Markup
