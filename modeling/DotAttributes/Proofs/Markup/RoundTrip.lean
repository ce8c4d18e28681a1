import DotAttributes.Proofs.Markup.Cutting
import DotAttributes.Proofs.Markup.Grammar
import Mathlib.Data.List.Chain

/-!
# Writing markup labels

`printLevel` writes a tree of markup as a label. A tree in canonical form (`IsCanonical`) comes
back when the label is read, up to the places of its parts (`read_printLevel`).

Behind the statement is one induction on the tree: what is written for a piece of it is cut into
tokens with the parts of the same piece at its places in the label (`Content.YieldsCopy`). That
these tokens are read as the piece is `run_of_parts`.
-/

namespace DotAttributes.Markup

/-! ## Writing -/

/-- Writes an attribute of a tag, with a space in front. -/
def Attribute.print (attr : Attribute) : List Char :=
  [' '] ++ attr.name.item ++ ['='] ++ ('"' :: attr.value.item ++ ['"'])

/-- Writes a tag up to the end of its attributes. -/
def Opening.print (opening : Opening) : List Char :=
  ['<'] ++ opening.name.item ++ opening.attributes.flatMap Attribute.print

/-- Writes a close tag. -/
def printClose (close : Located (List Char)) : List Char := ['<', '/'] ++ close.item ++ ['>']

mutual

/-- Writes content. -/
def Content.print : Content → List Char
  | .text run => run.item
  | .tag name attributes none _ => Opening.print ⟨name, attributes⟩ ++ ['/', '>']
  | .tag name attributes (some close) children =>
    Opening.print ⟨name, attributes⟩ ++ ['>'] ++ printLevel children ++ printClose close

/-- Writes a level. -/
def printLevel : List Content → List Char
  | [] => []
  | content :: rest => content.print ++ printLevel rest

end

/-! ## Trees up to places -/

/-- Forgets a place. -/
def unplace {α : Type} (x : Located α) : Located α := ⟨x.item, ⟨0, 0⟩⟩

/-- Forgets the places of an attribute. -/
def Attribute.unplaced (attr : Attribute) : Attribute := ⟨unplace attr.name, unplace attr.value⟩

mutual

/-- Forgets all places in content. -/
def Content.unplaced : Content → Content
  | .text run => .text (unplace run)
  | .tag name attributes close children =>
    .tag (unplace name) (attributes.map Attribute.unplaced) (close.map unplace)
      (unplacedLevel children)

/-- Forgets all places in a level. -/
def unplacedLevel : List Content → List Content
  | [] => []
  | content :: rest => content.unplaced :: unplacedLevel rest

end

/-! ## Canonical trees -/

/-- A run of text has characters, none of which opens a tag, and no blanks at its ends. -/
structure IsRun (cs : List Char) : Prop where
  ne_nil : cs ≠ []
  no_tag : '<' ∉ cs
  head : ∀ c ∈ cs.head?, Text.isBlank c = false
  last : ∀ c ∈ cs.getLast?, Text.isBlank c = false

/-- An attribute has a name, and no double quote in its value. -/
structure Attribute.IsCanonical (attr : Attribute) : Prop where
  name : IsName attr.name.item
  value : '"' ∉ attr.value.item

/-- Whether content is text. -/
def Content.isText : Content → Bool
  | text _ => true
  | tag .. => false

/-- There is a tag between any two texts. -/
def TextsApart (level : List Content) : Prop :=
  level.IsChain fun content next => ¬ (content.isText = true ∧ next.isText = true)

instance (level : List Content) : Decidable (TextsApart level) :=
  inferInstanceAs (Decidable (level.IsChain _))

/-- Content that comes back when it is written and read. -/
inductive Content.IsCanonical : Content → Prop
  | text {run : Located (List Char)} (run_isRun : IsRun run.item) : IsCanonical (.text run)
  | selfClosed {name : Located (List Char)} {attributes : List Attribute}
      (name_isName : IsName name.item)
      (attributes_canonical : ∀ attr ∈ attributes, attr.IsCanonical) :
      IsCanonical (.tag name attributes none [])
  | closed {name : Located (List Char)} {attributes : List Attribute}
      {close : Located (List Char)} {children : List Content} (name_isName : IsName name.item)
      (attributes_canonical : ∀ attr ∈ attributes, attr.IsCanonical)
      (close_isName : IsName close.item)
      (children_canonical : ∀ child ∈ children, IsCanonical child)
      (children_apart : TextsApart children) :
      IsCanonical (.tag name attributes (some close) children)

/-- A level that comes back when it is written and read. -/
structure IsCanonical (level : List Content) : Prop where
  content : ∀ content ∈ level, content.IsCanonical
  apart : TextsApart level

/-! ## Cutting what is written -/

/-- The tokens of a text, with another text behind it, have the given parts. -/
def Yields (mode next : Mode) (text rest : List Char) (offset : Nat) (parts : List Part) : Prop :=
  ∃ tokens, CutsInto mode next text rest offset tokens ∧ tokens.map Token.part = parts

section

variable {mode middle next : Mode} {text text' rest : List Char} {offset : Nat}

theorem CutsInto.yields {tokens : List Token} (h : CutsInto mode next text rest offset tokens) :
    Yields mode next text rest offset (tokens.map Token.part) :=
  ⟨tokens, h, rfl⟩

theorem Yields.nil : Yields mode mode [] rest offset [] := CutsInto.nil.yields

theorem Yields.append {parts parts' : List Part}
    (h : Yields mode middle text (text' ++ rest) offset parts)
    (h' : Yields middle next text' rest (offset + Text.size text) parts') :
    Yields mode next (text ++ text') rest offset (parts ++ parts') := by
  obtain ⟨tokens, hcut, rfl⟩ := h
  obtain ⟨tokens', hcut', rfl⟩ := h'
  exact ⟨tokens ++ tokens', hcut.append hcut', List.map_append⟩

theorem IsName.yields (h : IsName text) (hrest : ∀ c ∈ rest.head?, isNameChar c = false) :
    Yields .tag .tag text rest offset [.name ⟨text, Span.ofSize offset (Text.size text)⟩] :=
  (cutsInto_name h hrest).yields

theorem yields_value {value : List Char} (h : '"' ∉ value) :
    Yields .tag .tag ('"' :: value ++ ['"']) rest offset
      [⟨.value, some ⟨value, Span.ofSize offset (Text.size ('"' :: value ++ ['"']))⟩⟩] := by
  refine ⟨_, cutsInto_value h, ?_⟩
  simp [Token.part, Token.at, unquote]

end

/-- What is written for an attribute has its parts. -/
theorem Attribute.IsCanonical.exists_yields {attr : Attribute} (h : attr.IsCanonical)
    (rest : List Char) (offset : Nat) :
    ∃ placed : Attribute, Yields .tag .tag attr.print rest offset placed.parts ∧
      placed.unplaced = attr.unplaced := by
  refine ⟨⟨⟨_, _⟩, ⟨_, _⟩⟩, (((cutsInto_space (h.name.exists_head _)).yields.append
    (h.name.yields ?_)).append cutsInto_equals.yields).append (yields_value h.value), rfl⟩
  simp [isNameChar]

/-- What is written for the attributes of a tag has their parts. -/
theorem exists_yields_attributes {attributes : List Attribute}
    (h : ∀ attr ∈ attributes, attr.IsCanonical) (rest : List Char) (offset : Nat) :
    ∃ placed : List Attribute, Yields .tag .tag (attributes.flatMap Attribute.print) rest offset
        (placed.flatMap Attribute.parts) ∧
      placed.map Attribute.unplaced = attributes.map Attribute.unplaced := by
  induction attributes generalizing offset with
  | nil => exact ⟨[], Yields.nil, rfl⟩
  | cons attr attributes ih =>
    obtain ⟨hattr, hattributes⟩ := List.forall_mem_cons.1 h
    obtain ⟨placed, hfirst, hsame⟩ :=
      hattr.exists_yields (attributes.flatMap Attribute.print ++ rest) offset
    obtain ⟨others, hothers, hsames⟩ := ih hattributes (offset + Text.size attr.print)
    refine ⟨placed :: others, hfirst.append hothers, ?_⟩
    rw [List.map_cons, List.map_cons, hsame, hsames]

/-- What is written for a tag up to the end of its attributes has the parts of that. -/
theorem exists_yields_opening {name : Located (List Char)} {attributes : List Attribute}
    (hname : IsName name.item) (hattributes : ∀ attr ∈ attributes, attr.IsCanonical)
    (rest : List Char) (offset : Nat) (hrest : ∀ c ∈ rest.head?, isNameChar c = false) :
    ∃ placed : Opening, Yields .content .tag (Opening.print ⟨name, attributes⟩) rest offset
        placed.parts ∧
      unplace placed.name = unplace name ∧
      placed.attributes.map Attribute.unplaced = attributes.map Attribute.unplaced := by
  obtain ⟨placed, hplaced, hsame⟩ := exists_yields_attributes hattributes rest
    (offset + Text.size (['<'] ++ name.item))
  refine ⟨⟨⟨_, _⟩, placed⟩, ((cutsInto_tagOpen (hname.exists_head _)).yields.append
    (hname.yields ?_)).append hplaced, rfl, hsame⟩
  cases attributes with
  | nil => exact hrest
  | cons attr attributes => simp [Attribute.print, isNameChar]

/-- What is written for a close tag has its parts. -/
theorem exists_yields_close {close : Located (List Char)} (h : IsName close.item)
    (rest : List Char) (offset : Nat) :
    ∃ placed : Located (List Char), Yields .content .content (printClose close) rest offset
        (closeParts placed ++ [.mark .tagClose]) ∧
      unplace placed = unplace close := by
  refine ⟨⟨_, _⟩, (cutsInto_closeTagOpen.yields.append (h.yields ?_)).append
    cutsInto_tagClose.yields, rfl⟩
  simp [isNameChar]

/-- What is written for content has its parts, if a tag stands behind text. -/
def Content.YieldsCopy (content : Content) : Prop :=
  ∀ (rest : List Char) (offset : Nat),
    (content.isText = true → ∀ c ∈ rest.head?, c = '<') →
      ∃ placed : Content, Yields .content .content content.print rest offset placed.parts ∧
        placed.unplaced = content.unplaced ∧ placed.IsWellClosed

/-- What is written for a tag starts with `<`. -/
theorem Content.head?_print {content : Content} (h : content.isText = false) (rest : List Char) :
    (content.print ++ rest).head? = some '<' := by
  cases content with
  | text run => cases h
  | tag name attributes close children => cases close <;> rfl

/-- What is written for a level has its parts, if the label ends behind it or a tag stands
there. -/
theorem exists_yields_level {level : List Content} (h : ∀ content ∈ level, content.YieldsCopy)
    (happart : TextsApart level) (rest : List Char) (offset : Nat)
    (hrest : ∀ c ∈ rest.head?, c = '<') :
    ∃ placed : List Content, Yields .content .content (printLevel level) rest offset
        (levelParts placed) ∧
      unplacedLevel placed = unplacedLevel level ∧ ∀ content ∈ placed, content.IsWellClosed := by
  induction level generalizing offset with
  | nil => exact ⟨[], Yields.nil, rfl, List.forall_mem_nil _⟩
  | cons content level ih =>
    obtain ⟨hcontent, hlevel⟩ := List.forall_mem_cons.1 h
    obtain ⟨hnext, happart⟩ := List.isChain_cons.1 happart
    -- Text ends at the next tag of the level, or where the level ends.
    have hbehind (htext : content.isText = true) :
        ∀ c ∈ (printLevel level ++ rest).head?, c = '<' := by
      cases level with
      | nil => exact hrest
      | cons next level =>
        have htag : next.isText = false := by
          simpa [htext] using hnext next rfl
        intro c hc
        rw [printLevel, List.append_assoc, Content.head?_print htag] at hc
        exact (Option.some.inj hc).symm
    obtain ⟨placed, hfirst, hsame, hclosed⟩ := hcontent _ offset hbehind
    obtain ⟨others, hothers, hsames, hcloseds⟩ :=
      ih hlevel happart (offset + Text.size content.print)
    refine ⟨placed :: others, hfirst.append hothers, ?_, List.forall_mem_cons.2 ⟨hclosed, hcloseds⟩⟩
    rw [unplacedLevel, unplacedLevel, hsame, hsames]

/-- What is written for canonical content has its parts. -/
theorem Content.IsCanonical.yieldsCopy {content : Content} (h : content.IsCanonical) :
    content.YieldsCopy := by
  induction h with
  | @text run hrun =>
    intro rest offset hrest
    refine ⟨.text (Text.trimAt offset run.item),
      (cutsInto_text hrun.ne_nil hrun.no_tag (hrest rfl)).yields, ?_, .text _⟩
    rw [unplaced, unplaced, unplace, unplace, Text.trimAt, Text.trim_of_ends hrun.head hrun.last]
  | @selfClosed name attributes hname hattributes =>
    intro rest offset _
    obtain ⟨opening, hopening, hsame, hsames⟩ := exists_yields_opening hname hattributes
      (['/', '>'] ++ rest) offset (by simp [isNameChar])
    refine ⟨.tag opening.name opening.attributes none [],
      hopening.append cutsInto_selfClose.yields, ?_, .selfClosed _ _⟩
    simp only [unplaced, hsame, hsames]
  | @closed name attributes close children hname hattributes hclose _ happart ih =>
    intro rest offset _
    obtain ⟨opening, hopening, hsame, hsames⟩ := exists_yields_opening hname hattributes
      (['>'] ++ (printLevel children ++ (printClose close ++ rest))) offset (by simp [isNameChar])
    obtain ⟨placed, hplaced, hchildren, hclosed⟩ := exists_yields_level ih happart
      (printClose close ++ rest) (offset + Text.size (Opening.print ⟨name, attributes⟩ ++ ['>']))
      (by simp [printClose])
    obtain ⟨placedClose, hplacedClose, hsameClose⟩ := exists_yields_close hclose rest
      (offset + Text.size (Opening.print ⟨name, attributes⟩ ++ ['>'] ++ printLevel children))
    have hyields := ((hopening.append cutsInto_tagClose.yields).append hplaced).append hplacedClose
    refine ⟨.tag opening.name opening.attributes (some placedClose) placed, ?_, ?_,
      .closed _ _ _ hclosed⟩
    · simpa [print, parts, Token.part, Token.at] using hyields
    · simp only [unplaced, hsame, hsames, hchildren, Option.map_some, hsameClose]

/-- **Round trip.** What is written for a canonical tree is read as the tree, up to the places of
its parts. -/
theorem read_printLevel {level : List Content} (h : IsCanonical level) :
    ∃ label, read (printLevel level) = .ok label ∧ unplacedLevel label = unplacedLevel level := by
  obtain ⟨label, ⟨tokens, hcut, hparts⟩, hsame, hclosed⟩ :=
    exists_yields_level (fun content hcontent => (h.content content hcontent).yieldsCopy) h.apart
      [] 0 nofun
  -- Nothing stands behind the label, so its tokens are followed by the end alone.
  obtain ⟨htokens, hunclosed⟩ := hcut
  rw [List.append_nil, lexFrom] at htokens hunclosed
  refine ⟨label, ?_, hsame⟩
  exact (read_eq_ok_iff hunclosed htokens rfl).2 (run_of_parts hclosed hparts)

/-- The tree of a label whose value and texts are full of marks. -/
def markedTree : List Content :=
  [.tag ⟨['b'], ⟨0, 0⟩⟩ [⟨⟨['k'], ⟨0, 0⟩⟩, ⟨['<', '\'', '/', '=', '>'], ⟨0, 0⟩⟩⟩]
    (some ⟨['i'], ⟨0, 0⟩⟩)
    [.text ⟨['>', ' ', '"'], ⟨0, 0⟩⟩, .tag ⟨['-'], ⟨0, 0⟩⟩ [] none [],
      .text ⟨['-', '-', '>'], ⟨0, 0⟩⟩]]

/-- The marks in it end nothing early. -/
theorem read_printLevel_markedTree :
    String.ofList (printLevel markedTree) = "<b k=\"<'/=>\">> \"<-/>--></i>" ∧
      IsCanonical markedTree ∧ ∃ label, read (printLevel markedTree) = .ok label ∧
        unplacedLevel label = unplacedLevel markedTree := by
  have hname (c : Char) (hc : isNameChar c = true) : IsName [c] := ⟨nofun, by simpa using hc⟩
  have hcanonical : IsCanonical markedTree := by
    refine ⟨?_, .singleton _⟩
    simp only [markedTree, List.forall_mem_singleton]
    refine .closed (hname 'b' rfl) ?_ (hname 'i' rfl) ?_ (by decide)
    · simp only [List.forall_mem_singleton]
      exact ⟨hname 'k' rfl, by decide⟩
    · simp only [List.forall_mem_cons]
      refine ⟨.text ⟨by decide, by decide, ?_, ?_⟩,
        .selfClosed (hname '-' rfl) (List.forall_mem_nil _),
        .text ⟨by decide, by decide, ?_, ?_⟩, List.forall_mem_nil _⟩
      all_goals
        rintro _ ⟨⟩
        rfl
  exact ⟨by decide +kernel, hcanonical, read_printLevel hcanonical⟩

end DotAttributes.Markup
