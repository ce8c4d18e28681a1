import DotAttributes.Text.Blank

/-!
# Tokens of record labels

A record label is text in which braces, bars and angle brackets stand for structure. A
backslash takes the meaning from the character behind it; one at the very end of a label
stands for itself.

* `Record.atoms` reads a label as plain characters, escaped ones and marks.
* `Record.tokens` joins everything between two marks into one token of text.
-/

namespace DotAttributes.Record

/-- The characters that stand for structure. -/
inductive Mark
  | leftBrace
  | rightBrace
  | bar
  | leftAngle
  | rightAngle
deriving DecidableEq, Repr

/-- The character of a mark. -/
def Mark.char : Mark → Char
  | leftBrace => '{'
  | rightBrace => '}'
  | bar => '|'
  | leftAngle => '<'
  | rightAngle => '>'

/-- The mark that a character is, if it is one. -/
def Mark.ofChar? (c : Char) : Option Mark :=
  if c = '{' then some leftBrace
  else if c = '}' then some rightBrace
  else if c = '|' then some bar
  else if c = '<' then some leftAngle
  else if c = '>' then some rightAngle
  else none

/-- The smallest parts of a label. -/
inductive Atom
  | mark (mark : Mark)
  | plain (char : Char)
  | escaped (char : Char)
  | backslash
deriving DecidableEq, Repr

/-- The characters of a part. -/
def Atom.text : Atom → List Char
  | mark m => [m.char]
  | plain c => [c]
  | escaped c => ['\\', c]
  | backslash => ['\\']

/-- The part that an unescaped character is. -/
def Atom.ofChar (c : Char) : Atom :=
  match Mark.ofChar? c with
  | some m => mark m
  | none => plain c

/-- Reads a label as its smallest parts. -/
def atoms : List Char → List Atom
  | [] => []
  | ['\\'] => [.backslash]
  | '\\' :: c :: cs => .escaped c :: atoms cs
  | c :: cs => .ofChar c :: atoms cs

/-- The kinds of tokens. -/
inductive TokenKind
  | mark (mark : Mark)
  | text
  /-- text that is nothing but a backslash at the end of the label -/
  | trailingBackslash
deriving DecidableEq, Repr

/-- Whether a token carries text. -/
def TokenKind.isText : TokenKind → Bool
  | mark _ => false
  | text | trailingBackslash => true

/-- A token, the characters it is made of, and its place. -/
structure Token where
  kind : TokenKind
  text : List Char
  span : Span
deriving DecidableEq, Repr

/-- Whether a token carries nothing but blanks. -/
def Token.isBlank (token : Token) : Bool := token.kind.isText && Text.isBlankText token.text

/-- The kind of the token that a part makes by itself. -/
def Atom.kind : Atom → TokenKind
  | mark m => .mark m
  | plain _ | escaped _ => .text
  | backslash => .trailingBackslash

/-- Puts a part, which starts at `offset`, in front of tokens. A part of text joins the text
that follows it. -/
def joinAtom (offset : Nat) (atom : Atom) (tokens : List Token) : List Token :=
  let alone : Token := ⟨atom.kind, atom.text, Span.ofSize offset (Text.size atom.text)⟩
  match tokens with
  | [] => [alone]
  | next :: rest =>
    if atom.kind.isText && next.kind.isText then
      ⟨.text, atom.text ++ next.text, ⟨offset, next.span.stop⟩⟩ :: rest
    else alone :: next :: rest

/-- The tokens of parts of which the first one starts at `offset`. -/
def joinAtoms (offset : Nat) : List Atom → List Token
  | [] => []
  | atom :: rest => joinAtom offset atom (joinAtoms (offset + Text.size atom.text) rest)

/-- Cuts a label into tokens. -/
def tokens (cs : List Char) : List Token := joinAtoms 0 (atoms cs)

end DotAttributes.Record
