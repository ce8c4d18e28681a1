import DotAttributes.Text.Blank

/-!
# Tokens of markup labels

A markup label is text with tags in it. Outside a tag everything up to the next `<` is one
token of text, and comments are passed over. Inside a tag there are names, equals signs and
quoted values up to the closing `>` or `/>`, and blanks are passed over.

* `Markup.Piece` is what is taken off the front of a label in one go, token or not.
* `Markup.lex` cuts a whole label into tokens, of which the last marks the end.

Nothing stops the cutting: a comment or a value that is not closed takes the rest of the
label and is noted as a fault.
-/

namespace DotAttributes.Markup

/-- The kinds of tokens. -/
inductive TokenKind
  /-- characters between tags -/
  | text
  /-- `<` -/
  | tagOpen
  /-- `</` -/
  | closeTagOpen
  /-- the name of a tag or of an attribute -/
  | name
  /-- `=` -/
  | equals
  /-- the value of an attribute with its quotes -/
  | value
  /-- `>` -/
  | tagClose
  /-- `/>` -/
  | selfClose
  /-- a character that has no place inside a tag -/
  | unknown
  /-- the end of the label -/
  | eof
deriving DecidableEq, Repr

/-- A token, the characters it is made of, and its place. -/
structure Token where
  kind : TokenKind
  text : List Char
  span : Span
deriving DecidableEq, Repr

/-- What the label does not close. -/
inductive Unclosed
  | comment
  | value
deriving DecidableEq, Repr

/-- Where in a label the next character stands. -/
inductive Mode
  | content
  | tag
deriving DecidableEq, Repr

/-- The characters taken off the front of a label: the token they are, unless they are passed
over, what they fail to close, and what comes after them. -/
structure Piece where
  taken : List Char
  kind : Option TokenKind
  unclosed : Option Unclosed
  mode : Mode
  rest : List Char
deriving DecidableEq, Repr

/-! ## Outside a tag -/

/-- Cuts a text behind the first `-->`. -/
def splitComment? : List Char → Option (List Char × List Char)
  | '-' :: '-' :: '>' :: rest => some (['-', '-', '>'], rest)
  | [] => none
  | c :: cs => (splitComment? cs).map fun (body, rest) => (c :: body, rest)

/-- The comment whose opening `<!--` stands in front of a text. -/
def commentPiece (cs : List Char) : Piece :=
  match splitComment? cs with
  | some (body, rest) => ⟨['<', '!', '-', '-'] ++ body, none, none, .content, rest⟩
  | none => ⟨['<', '!', '-', '-'] ++ cs, none, some .comment, .content, []⟩

/-- The next piece outside a tag. -/
def contentPiece : Char → List Char → Piece
  | '<', '!' :: '-' :: '-' :: cs => commentPiece cs
  | '<', '/' :: cs => ⟨['<', '/'], some .closeTagOpen, none, .tag, cs⟩
  | '<', cs => ⟨['<'], some .tagOpen, none, .tag, cs⟩
  | c, cs => ⟨c :: cs.takeWhile (· != '<'), some .text, none, .content, cs.dropWhile (· != '<')⟩

/-! ## Inside a tag -/

/-- Whether a character may stand in the name of a tag or of an attribute. -/
def isNameChar (c : Char) : Bool := c.isAlphanum || c == '_' || c == '-' || c == ':' || c == '.'

/-- Whether a character is a quote. -/
def isQuote (c : Char) : Bool := c == '"' || c == '\''

/-- The value whose opening quote stands in front of a text. -/
def valuePiece (quote : Char) (cs : List Char) : Piece :=
  match Text.splitFirst? quote cs with
  | some (body, rest) => ⟨quote :: body ++ [quote], some .value, none, .tag, rest⟩
  | none => ⟨quote :: cs, some .value, some .value, .tag, []⟩

/-- The next piece inside a tag. -/
def tagPiece (c : Char) (cs : List Char) : Piece :=
  if Text.isBlank c then
    ⟨c :: cs.takeWhile Text.isBlank, none, none, .tag, cs.dropWhile Text.isBlank⟩
  else if c = '>' then ⟨['>'], some .tagClose, none, .content, cs⟩
  else if c = '/' ∧ cs.head? = some '>' then ⟨['/', '>'], some .selfClose, none, .content, cs.tail⟩
  else if c = '=' then ⟨['='], some .equals, none, .tag, cs⟩
  else if isQuote c then valuePiece c cs
  else if isNameChar c then
    ⟨c :: cs.takeWhile isNameChar, some .name, none, .tag, cs.dropWhile isNameChar⟩
  else ⟨[c], some .unknown, none, .tag, cs⟩

/-! ## The whole label -/

/-- The next piece of a label that is not at its end. -/
def nextPiece : Mode → Char → List Char → Piece
  | .content => contentPiece
  | .tag => tagPiece

theorem splitComment?_append {cs body rest : List Char}
    (h : splitComment? cs = some (body, rest)) : body ++ rest = cs := by
  fun_induction splitComment? cs generalizing body with
  | case1 tail =>
    cases h
    rfl
  | case2 => cases h
  | case3 c cs _ ih =>
    obtain ⟨⟨b, r⟩, hb, he⟩ := Option.map_eq_some_iff.1 h
    cases he
    rw [List.cons_append, ih hb]

/-- A piece and what comes after it make up the label. -/
theorem taken_append_rest (mode : Mode) (c : Char) (cs : List Char) :
    (nextPiece mode c cs).taken ++ (nextPiece mode c cs).rest = c :: cs := by
  cases mode with
  | content =>
    show (contentPiece c cs).taken ++ (contentPiece c cs).rest = c :: cs
    unfold contentPiece
    split
    · next tail =>
      unfold commentPiece
      split
      · next body rest h => simp [splitComment?_append h]
      · simp
    · simp
    · simp
    · simp [List.takeWhile_append_dropWhile]
  | tag =>
    show (tagPiece c cs).taken ++ (tagPiece c cs).rest = c :: cs
    unfold tagPiece
    split
    · simp [List.takeWhile_append_dropWhile]
    split
    · next h => simp [h]
    split
    · next h =>
      obtain ⟨rfl, hh⟩ := h
      cases cs with
      | nil => cases hh
      | cons d ds =>
        cases hh
        rfl
    split
    · next h => simp [h]
    split
    · unfold valuePiece
      split
      · next body rest h => simpa using Text.splitFirst?_append h
      · simp
    split
    · simp [List.takeWhile_append_dropWhile]
    · rfl

/-- A piece has at least one character. -/
theorem taken_ne_nil (mode : Mode) (c : Char) (cs : List Char) :
    (nextPiece mode c cs).taken ≠ [] := by
  cases mode with
  | content =>
    show (contentPiece c cs).taken ≠ []
    unfold contentPiece
    split
    · unfold commentPiece
      split <;> simp
    all_goals simp
  | tag =>
    show (tagPiece c cs).taken ≠ []
    unfold tagPiece valuePiece
    repeat' split
    all_goals simp

theorem rest_length_lt (mode : Mode) (c : Char) (cs : List Char) :
    (nextPiece mode c cs).rest.length < (c :: cs).length := by
  have hne := List.length_pos_iff.2 (taken_ne_nil mode c cs)
  rw [← taken_append_rest mode c cs, List.length_append]
  omega

/-- The place of what a piece fails to close: its opening characters. -/
def Unclosed.locate (offset : Nat) : Unclosed → Located Unclosed
  | comment => ⟨comment, Span.ofSize offset 4⟩
  | value => ⟨value, Span.ofSize offset 1⟩

/-- The tokens of a label, or of the rest of one, and what it does not close. -/
structure Lexed where
  tokens : List Token
  unclosed : List (Located Unclosed)
deriving DecidableEq, Repr

/-- Cuts what is left of a label, which starts at `offset`, into tokens. -/
def lexFrom (mode : Mode) (offset : Nat) : List Char → Lexed
  | [] => ⟨[⟨.eof, [], Span.empty offset⟩], []⟩
  | c :: cs =>
    let piece := nextPiece mode c cs
    let stop := offset + Text.size piece.taken
    let tail := lexFrom piece.mode stop piece.rest
    ⟨(piece.kind.map fun kind => ⟨kind, piece.taken, ⟨offset, stop⟩⟩).toList ++ tail.tokens,
      (piece.unclosed.map (Unclosed.locate offset)).toList ++ tail.unclosed⟩
termination_by cs => cs.length
decreasing_by exact rest_length_lt mode c cs

/-- Cuts a label into tokens. -/
def lex (cs : List Char) : Lexed := lexFrom .content 0 cs

end DotAttributes.Markup
