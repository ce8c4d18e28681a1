import DotAttributes.Markup.Check
import DotAttributes.Proofs.Findings
import DotAttributes.Proofs.Folding
import Mathlib.Data.List.Basic

/-!
# Markup labels ignore case

Two markup labels that differ only in the case of letters, wherever these stand, have the same
diagnostics up to their words (`outline_checkMarkup_of_sameIgnoringCase`).

A folded label is cut into the folded tokens at the same places, because no letter takes part in the
cutting (`lexFrom_foldCase`), and it is read as the folded tree (`read_foldCase`), because the
reader looks at kinds of tokens only. In a folded tree the checks find problems of the same kinds at
the same places (`outline_check`): names of tags, parents, attributes and words are compared
ignoring case, and numbers mean the same in either case.
-/

namespace DotAttributes.Markup

open Text

/-! ## Folding -/

/-- Folds the characters of a token. -/
def Token.foldCase (token : Token) : Token := { token with text := Text.foldCase token.text }

/-- Folds a piece and what comes after it. -/
def Piece.foldCase (piece : Piece) : Piece :=
  { piece with taken := Text.foldCase piece.taken, rest := Text.foldCase piece.rest }

/-- Folds the tokens of a label. -/
def Lexed.foldCase (lexed : Lexed) : Lexed :=
  { lexed with tokens := lexed.tokens.map Token.foldCase }

/-- Folds the name and the value of an attribute. -/
def Attribute.foldCase (attr : Attribute) : Attribute :=
  ⟨attr.name.map Text.foldCase, attr.value.map Text.foldCase⟩

mutual

/-- Folds all texts in content. -/
def Content.foldCase : Content → Content
  | .text run => .text (run.map Text.foldCase)
  | .tag name attributes close children =>
    .tag (name.map Text.foldCase) (attributes.map Attribute.foldCase)
      (close.map (Located.map Text.foldCase)) (foldLevel children)

/-- Folds all texts in a level. -/
def foldLevel : List Content → List Content
  | [] => []
  | content :: rest => content.foldCase :: foldLevel rest

end

theorem foldLevel_eq_map (level : List Content) : foldLevel level = level.map Content.foldCase := by
  induction level with
  | nil => rfl
  | cons content rest ih => rw [foldLevel, ih, List.map_cons]

/-- Folds the opening part of a tag. -/
def Opening.foldCase (opening : Opening) : Opening :=
  ⟨opening.name.map Text.foldCase, opening.attributes.map Attribute.foldCase⟩

/-- Folds an open tag and the content in front of it. -/
def OpenTag.foldCase (tag : OpenTag) : OpenTag :=
  ⟨tag.opening.foldCase, tag.before.map Content.foldCase⟩

/-- Folds the part of a tag that is being read. -/
def Place.foldCase : Place → Place
  | .content => .content
  | .tagName => .tagName
  | .attributes opening => .attributes opening.foldCase
  | .equals opening name => .equals opening.foldCase (name.map Text.foldCase)
  | .value opening name => .value opening.foldCase (name.map Text.foldCase)
  | .closeName => .closeName
  | .closeEnd name => .closeEnd (name.map Text.foldCase)

/-- Folds all that has been read. -/
def State.foldCase (state : State) : State :=
  ⟨state.stack.map OpenTag.foldCase, state.content.map Content.foldCase, state.place.foldCase⟩

/-! ## Cutting into tokens -/

theorem isCaseless_isNameChar : IsCaseless isNameChar := isCaseless_of_capitals (by decide)

theorem isCaseless_isQuote : IsCaseless isQuote := isCaseless_of_capitals (by decide)

theorem splitComment?_cons (c : Char) (cs : List Char) : splitComment? (c :: cs) =
    if (c :: cs).take 3 = ['-', '-', '>'] then some (['-', '-', '>'], cs.drop 2)
    else (splitComment? cs).map fun (body, rest) => (c :: body, rest) := by
  split
  · next h =>
    match cs with
    | [] | [_] => simp at h
    | _ :: _ :: _ =>
      simp only [List.take_succ_cons, List.take_zero, List.cons.injEq, and_true] at h
      obtain ⟨rfl, rfl, rfl⟩ := h
      rfl
  · next h =>
    rw [splitComment?]
    rintro rest rfl rfl
    exact h rfl

theorem splitComment?_foldCase (cs : List Char) : splitComment? (Text.foldCase cs) =
    (splitComment? cs).map fun (body, rest) => (Text.foldCase body, Text.foldCase rest) := by
  induction cs with
  | nil => rfl
  | cons c cs ih =>
    rw [foldCase_cons, splitComment?_cons, splitComment?_cons, ← foldCase_cons, take_foldCase,
      if_congr (foldCase_eq_iff rfl) rfl rfl, drop_foldCase, ih]
    split
    · rfl
    · cases splitComment? cs <;> rfl

theorem commentPiece_foldCase (cs : List Char) :
    commentPiece (Text.foldCase cs) = (commentPiece cs).foldCase := by
  unfold commentPiece
  rw [splitComment?_foldCase]
  cases splitComment? cs with
  | none => rfl
  | some parts =>
    simp only [Option.map_some, Piece.foldCase, foldCase_append]
    rfl

theorem contentPiece_eq (c : Char) (cs : List Char) : contentPiece c cs =
    if c = '<' then
      if cs.take 3 = ['!', '-', '-'] then commentPiece (cs.drop 3)
      else if cs.head? = some '/' then ⟨['<', '/'], some .closeTagOpen, none, .tag, cs.tail⟩
      else ⟨['<'], some .tagOpen, none, .tag, cs⟩
    else ⟨c :: cs.takeWhile (· != '<'), some .text, none, .content, cs.dropWhile (· != '<')⟩ := by
  unfold contentPiece
  split
  · rfl
  · rfl
  · next hcomment hclose =>
    rw [if_pos rfl, if_neg, if_neg]
    · intro h
      cases cs with
      | nil => cases h
      | cons d ds =>
        cases h
        exact hclose ds rfl
    · intro h
      match cs with
      | [] | [_] | [_, _] => simp at h
      | _ :: _ :: _ :: ds =>
        simp only [List.take_succ_cons, List.take_zero, List.cons.injEq, and_true] at h
        obtain ⟨rfl, rfl, rfl⟩ := h
        exact hcomment ds rfl
  · next hopen _ _ => rw [if_neg hopen]

theorem contentPiece_foldCase (c : Char) (cs : List Char) :
    contentPiece c.toLower (Text.foldCase cs) = (contentPiece c cs).foldCase := by
  have hcaseless : IsCaseless fun c => c != '<' := isCaseless_bne rfl
  rw [contentPiece_eq, contentPiece_eq, if_congr (toLower_eq_iff rfl) rfl rfl, take_foldCase,
    if_congr (foldCase_eq_iff rfl) rfl rfl, if_congr (head?_foldCase_eq_iff rfl cs) rfl rfl,
    drop_foldCase, tail_foldCase, commentPiece_foldCase, takeWhile_foldCase hcaseless,
    dropWhile_foldCase hcaseless]
  split_ifs <;> rfl

theorem toLower_of_isQuote {c : Char} (h : isQuote c = true) :
    c.isAlpha = false ∧ c.toLower = c := by
  rw [isQuote, Bool.or_eq_true, beq_iff_eq, beq_iff_eq] at h
  rcases h with rfl | rfl <;> decide

theorem valuePiece_foldCase {quote : Char} (hquote : isQuote quote = true) (cs : List Char) :
    valuePiece quote (Text.foldCase cs) = (valuePiece quote cs).foldCase := by
  obtain ⟨halpha, hlower⟩ := toLower_of_isQuote hquote
  unfold valuePiece
  rw [splitFirst?_foldCase halpha]
  cases splitFirst? quote cs with
  | none => simp [Piece.foldCase, hlower]
  | some parts => simp [Piece.foldCase, hlower]

theorem tagPiece_foldCase (c : Char) (cs : List Char) :
    tagPiece c.toLower (Text.foldCase cs) = (tagPiece c cs).foldCase := by
  have hself : (c.toLower = '/' ∧ (Text.foldCase cs).head? = some '>') ↔
      c = '/' ∧ cs.head? = some '>' :=
    and_congr (toLower_eq_iff rfl) (head?_foldCase_eq_iff rfl cs)
  unfold tagPiece
  rw [isCaseless_isBlank, if_congr (toLower_eq_iff rfl) rfl rfl, if_congr hself rfl rfl,
    if_congr (toLower_eq_iff rfl) rfl rfl, isCaseless_isQuote, isCaseless_isNameChar,
    takeWhile_foldCase isCaseless_isBlank, dropWhile_foldCase isCaseless_isBlank,
    takeWhile_foldCase isCaseless_isNameChar, dropWhile_foldCase isCaseless_isNameChar,
    tail_foldCase]
  split_ifs with _ _ _ _ hquote
  · rfl
  · rfl
  · rfl
  · rfl
  · rw [(toLower_of_isQuote hquote).2]
    exact valuePiece_foldCase hquote cs
  · rfl
  · rfl

theorem nextPiece_foldCase (mode : Mode) (c : Char) (cs : List Char) :
    nextPiece mode c.toLower (Text.foldCase cs) = (nextPiece mode c cs).foldCase := by
  cases mode with
  | content => exact contentPiece_foldCase c cs
  | tag => exact tagPiece_foldCase c cs

/-- **Tokens.** A folded label is cut into the folded tokens, and leaves the same unclosed. -/
theorem lexFrom_foldCase (mode : Mode) (offset : Nat) (cs : List Char) :
    lexFrom mode offset (Text.foldCase cs) = (lexFrom mode offset cs).foldCase := by
  fun_induction lexFrom mode offset cs with
  | case1 mode offset =>
    rw [foldCase_nil, lexFrom]
    rfl
  | case2 mode offset c cs piece stop tail ih =>
    have hpiece : nextPiece mode c.toLower (Text.foldCase cs) = piece.foldCase :=
      nextPiece_foldCase mode c cs
    have hsize : size piece.foldCase.taken = size piece.taken := size_foldCase piece.taken
    have htail : lexFrom piece.foldCase.mode (offset + size piece.taken) piece.foldCase.rest =
        tail.foldCase := ih
    rw [foldCase_cons, lexFrom]
    simp only [hpiece, hsize, htail, Lexed.foldCase, List.map_append]
    cases hkind : piece.kind <;> simp [Piece.foldCase, hkind, Token.foldCase, stop]

/-! ## Reading -/

theorem unquote_foldCase (cs : List Char) :
    unquote (Text.foldCase cs) = Text.foldCase (unquote cs) := by
  rw [unquote, tail_foldCase]
  exact List.map_dropLast.symm

theorem stepContent_foldCase (stack : List OpenTag) (content : List Content) (token : Token) :
    (stepContent (stack.map OpenTag.foldCase) (content.map Content.foldCase)
        token.foldCase).toOption =
      (stepContent stack content token).toOption.map State.foldCase := by
  simp only [stepContent, Token.foldCase, List.isEmpty_map, trimAt_foldCase]
  cases token.kind with
  | text => simp [State.foldCase, Place.foldCase, Content.foldCase, Except.toOption]
  | closeTagOpen | eof => cases stack <;> rfl
  | tagOpen | name | equals | value | tagClose | selfClose | unknown => rfl

theorem stepAttributes_foldCase (stack : List OpenTag) (content : List Content)
    (opening : Opening) (token : Token) :
    (stepAttributes (stack.map OpenTag.foldCase) (content.map Content.foldCase) opening.foldCase
        token.foldCase).toOption =
      (stepAttributes stack content opening token).toOption.map State.foldCase := by
  simp only [stepAttributes, Token.foldCase]
  cases token.kind with
  | selfClose =>
    simp [State.foldCase, Place.foldCase, Content.foldCase, Opening.foldCase, foldLevel,
      Except.toOption]
  | text | tagOpen | closeTagOpen | name | equals | value | tagClose | unknown | eof => rfl

theorem closeTag_foldCase (close : Located (List Char)) (content : List Content)
    (stack : List OpenTag) :
    closeTag (close.map Text.foldCase) (content.map Content.foldCase)
        (stack.map OpenTag.foldCase) = (closeTag close content stack).foldCase := by
  cases stack with
  | nil => rfl
  | cons tag stack =>
    simp [closeTag, State.foldCase, Place.foldCase, OpenTag.foldCase, Opening.foldCase,
      Content.foldCase, foldLevel_eq_map]

theorem step_foldCase (state : State) (token : Token) :
    (step state.foldCase token.foldCase).toOption =
      (step state token).toOption.map State.foldCase := by
  obtain ⟨stack, content, place⟩ := state
  obtain ⟨kind, text, span⟩ := token
  cases place with
  | content => exact stepContent_foldCase stack content _
  | attributes opening => exact stepAttributes_foldCase stack content opening _
  | tagName | closeName | equals => cases kind <;> rfl
  | value opening name =>
    by_cases hkind : kind = .value
    · simp [step, State.foldCase, Place.foldCase, Token.foldCase, hkind, unquote_foldCase,
        Except.toOption, Opening.foldCase, Attribute.foldCase, Located.map]
    · simp [step, State.foldCase, Place.foldCase, Token.foldCase, hkind, mismatch,
        Except.toOption]
  | closeEnd name =>
    by_cases hkind : kind = .tagClose
    · simp [step, State.foldCase, Place.foldCase, Token.foldCase, hkind, Except.toOption,
        closeTag_foldCase]
    · simp [step, State.foldCase, Place.foldCase, Token.foldCase, hkind, mismatch,
        Except.toOption]

theorem run_foldCase (state : State) (tokens : List Token) :
    (run state.foldCase (tokens.map Token.foldCase)).toOption =
      (run state tokens).toOption.map State.foldCase := by
  induction tokens generalizing state with
  | nil => rfl
  | cons token tokens ih =>
    rw [List.map_cons, run, run]
    rcases cases_of_toOption_eq_map (step_foldCase state token)
      with ⟨e, e', he, he'⟩ | ⟨next, hnext, hnext'⟩
    · rw [he, he']
      rfl
    · rw [hnext, hnext']
      exact ih next

/-- **Reading.** A folded label is read exactly if the label is, as the folded tree. -/
theorem read_foldCase (cs : List Char) :
    (read (Text.foldCase cs)).toOption = (read cs).toOption.map (List.map Content.foldCase) := by
  simp only [read, lex, lexFrom_foldCase, Lexed.foldCase]
  cases (lexFrom .content 0 cs).unclosed with
  | cons unclosed more => rfl
  | nil =>
    rcases cases_of_toOption_eq_map (run_foldCase .start (lexFrom .content 0 cs).tokens)
      with ⟨e, e', he, he'⟩ | ⟨state, hstate, hstate'⟩
    · rw [show State.start = State.start.foldCase from rfl, he]
      rw [show State.start.foldCase = State.start from rfl, he']
      rfl
    · rw [show State.start = State.start.foldCase from rfl, hstate]
      rw [show State.start.foldCase = State.start from rfl, hstate']
      rfl

/-! ## Checking -/

theorem isBetween_foldCase (low high : Int) (cs : List Char) :
    Integer.isBetween low high (Text.foldCase cs) = Integer.isBetween low high cs := by
  rw [Integer.isBetween, Integer.read_foldCase, Integer.isBetween]

/-- Words, letters and numbers mean the same in either case. -/
theorem Domain.contains_foldCase (value : List Char) (domain : Domain) :
    domain.contains (Text.foldCase value) = domain.contains value := by
  cases domain with
  | oneOf words => simp only [contains, trim_foldCase, containsIgnoringCase_foldCase]
  | listOf words =>
    have hcomma : IsCaseless fun c => c == ',' := isCaseless_beq rfl
    simp only [contains, pieces_foldCase hcomma, List.all_map, Function.comp_def, trim_foldCase,
      containsIgnoringCase_foldCase]
  | letters set =>
    have hletter : IsCaseless fun c => containsIgnoringCase set [c] := fun c =>
      containsIgnoringCase_foldCase set [c]
    simp only [contains, isEmpty_foldCase, all_foldCase hletter]
  | integers low high => simp only [contains, trim_foldCase, isBetween_foldCase]
  | nonNegative => simp only [contains, trim_foldCase, Binary64.read?_foldCase]
  | any => rfl

theorem TagRule.find?_foldCase (name : List Char) :
    TagRule.find? (Text.foldCase name) = TagRule.find? name := by
  simp only [TagRule.find?, sameIgnoringCase_foldCase]

/-- The kind of a problem and its place. -/
def Problem.outline (p : Located Problem) : Kind × Span := (p.item.kind, p.span)

theorem Content.isSolid_foldCase (content : Content) :
    content.foldCase.isSolid = content.isSolid := by
  cases content with
  | text run => exact congrArg (! ·) (isEmpty_foldCase run.item)
  | tag name attributes close children => rfl

theorem Content.isSolidText_foldCase (content : Content) :
    content.foldCase.isSolidText = content.isSolidText := by
  cases content with
  | text run => exact congrArg (! ·) (isEmpty_foldCase run.item)
  | tag name attributes close children => rfl

theorem Content.isTable_foldCase (content : Content) :
    content.foldCase.isTable = content.isTable := by
  cases content with
  | text run => rfl
  | tag name attributes close children => exact sameIgnoringCase_foldCase _ name.item

theorem Content.place_foldCase (content : Content) : content.foldCase.place = content.place := by
  cases content <;> rfl

theorem siblingProblems_foldCase (level : List Content) :
    siblingProblems (level.map Content.foldCase) = siblingProblems level := by
  simp only [siblingProblems, List.filter_map, List.any_map, List.length_map, List.map_map,
    Function.comp_def, Content.isSolid_foldCase, Content.isTable_foldCase, Content.place_foldCase]

theorem outline_closeProblems (name : Located (List Char))
    (close : Option (Located (List Char))) :
    (closeProblems (name.map Text.foldCase) (close.map (Located.map Text.foldCase))).map
        Problem.outline = (closeProblems name close).map Problem.outline := by
  cases close with
  | none => rfl
  | some close =>
    have hsame : sameIgnoringCase (Text.foldCase close.item) (Text.foldCase name.item) =
        sameIgnoringCase close.item name.item := by
      simp only [sameIgnoringCase, foldCase_foldCase]
    simp only [Option.map_some, closeProblems, Located.map, hsame]
    split <;> rfl

theorem outline_parentProblems {parent parent' : List Char}
    (hparent : Text.foldCase parent = Text.foldCase parent') (rule : TagRule)
    (name : Located (List Char)) :
    (parentProblems rule parent (name.map Text.foldCase)).map Problem.outline =
      (parentProblems rule parent' name).map Problem.outline := by
  unfold parentProblems
  rw [containsIgnoringCase_congr (sameIgnoringCase_iff.2 hparent)]
  split <;> rfl

theorem outline_attributeProblems (rule : TagRule) (tag tag' : List Char) (attr : Attribute) :
    (attributeProblems rule tag attr.foldCase).map Problem.outline =
      (attributeProblems rule tag' attr).map Problem.outline := by
  simp only [attributeProblems, Attribute.foldCase, Located.map, sameIgnoringCase_foldCase,
    Domain.contains_foldCase]
  split
  · rfl
  · split <;> rfl

theorem outline_tagProblems {parent parent' : List Char}
    (hparent : Text.foldCase parent = Text.foldCase parent') (name : Located (List Char))
    (attributes : List Attribute) (close : Option (Located (List Char)))
    (children : List Content) :
    (tagProblems parent (name.map Text.foldCase) (attributes.map Attribute.foldCase)
        (close.map (Located.map Text.foldCase)) (children.map Content.foldCase)).map
        Problem.outline =
      (tagProblems parent' name attributes close children).map Problem.outline := by
  unfold tagProblems
  rw [show (name.map Text.foldCase).item = Text.foldCase name.item from rfl,
    TagRule.find?_foldCase]
  cases TagRule.find? name.item with
  | none => rfl
  | some rule =>
    have hself : (selfClosingProblems rule (name.map Text.foldCase)
        (close.map (Located.map Text.foldCase))).map Problem.outline =
          (selfClosingProblems rule name close).map Problem.outline := by
      rw [selfClosingProblems, Option.isNone_map, selfClosingProblems]
      split <;> rfl
    have htext : (textProblems rule (name.map Text.foldCase)
        (children.map Content.foldCase)).map Problem.outline =
          (textProblems rule name children).map Problem.outline := by
      simp only [textProblems, List.any_map, Function.comp_def, Content.isSolidText_foldCase]
      split <;> rfl
    simp only [List.map_append, List.flatMap_map, List.map_flatMap, hself, htext,
      outline_closeProblems, outline_parentProblems hparent,
      outline_attributeProblems rule (Text.foldCase name.item) name.item]

-- By recursion on the tree. The name of a tag is the parent further down, so the statement is
-- about parents that are the same ignoring case.
mutual

theorem outline_checkContent : ∀ {parent parent' : List Char},
    Text.foldCase parent = Text.foldCase parent' → ∀ content : Content,
      (checkContent parent content.foldCase).map Problem.outline =
        (checkContent parent' content).map Problem.outline
  | _, _, _, .text _ => rfl
  | _, _, hparent, .tag name attributes close children => by
    have hchildren := outline_checkContents (foldCase_foldCase name.item) children
    rw [Content.foldCase, checkContent, checkContent, foldLevel_eq_map, List.map_append,
      List.map_append, List.map_append, List.map_append, siblingProblems_foldCase,
      outline_tagProblems hparent]
    exact congrArg (_ ++ ·) hchildren
termination_by structural _ _ _ content => content

theorem outline_checkContents : ∀ {parent parent' : List Char},
    Text.foldCase parent = Text.foldCase parent' → ∀ level : List Content,
      (checkContents parent (level.map Content.foldCase)).map Problem.outline =
        (checkContents parent' level).map Problem.outline
  | _, _, _, [] => rfl
  | _, _, hparent, content :: rest => by
    rw [List.map_cons, checkContents, checkContents, List.map_append, List.map_append,
      outline_checkContent hparent content, outline_checkContents hparent rest]
termination_by structural _ _ _ level => level

end

/-- **Checks.** In a folded tree there are problems of the same kinds at the same places. -/
theorem outline_check (label : List Content) :
    (check (label.map Content.foldCase)).map Problem.outline =
      (check label).map Problem.outline := by
  rw [check, check, List.map_append, List.map_append, siblingProblems_foldCase,
    outline_checkContents rfl label]

end DotAttributes.Markup

namespace DotAttributes

open Text

/-! ## Labels -/

theorem outlines_findings_markup (a : Attribute) (problems : List (Located Markup.Problem)) :
    outlines (a.findings .markup problems) = (problems.map Markup.Problem.outline).map fun p =>
      ⟨p.1.severity, some p.1.code, some a.name, some (a.absolute p.2)⟩ := by
  simp [outlines, Attribute.findings, Finding.kind, Problem.kind, Finding.attrName?, Finding.span,
    Markup.Problem.outline]

/-- A label whose value is folded has the diagnostics of the label, up to their words. -/
theorem outlines_checkMarkup_foldString (a : Attribute) :
    outlines (checkMarkup { a with value := foldString a.value }) = outlines (checkMarkup a) := by
  have hchars : ({ a with value := foldString a.value } : Attribute).chars = foldCase a.chars :=
    toList_foldString a.value
  unfold checkMarkup
  rw [hchars]
  rcases cases_of_toOption_eq_map (Markup.read_foldCase a.chars)
    with ⟨e, e', he, he'⟩ | ⟨label, hlabel, hlabel'⟩
  · rw [he, he']
    simp [outlines, Finding.kind, Problem.kind, Finding.attrName?, Finding.span]
  · rw [hlabel, hlabel']
    simp only [outlines_findings_markup, Markup.outline_check]
    rfl

/-- **Markup labels ignore case.** If the value of a label is replaced by one that differs only in
the case of letters, the diagnostics stay the same up to their words. -/
theorem outline_checkMarkup_of_sameIgnoringCase (a : Attribute) {value : String}
    (h : sameIgnoringCase a.chars value.toList = true) :
    ((checkMarkup { a with value := value }).map fun f => f.diagnostic.outline) =
      (checkMarkup a).map fun f => f.diagnostic.outline := by
  have hvalue := outlines_checkMarkup_foldString { a with value := value }
  have hfolded := outlines_checkMarkup_foldString a
  rw [show foldString a.value = foldString value from foldString_eq_iff.2 h] at hfolded
  exact hvalue.symm.trans hfolded

/-- A label with text where none may stand, with an attribute that has a wrong value, and with a tag
that is closed by another name. -/
def faultyLabel : Attribute :=
  .writtenAt 10 .markup "label" "<table><tr>x<TD port='p' align='up'></td ></TH></table>"

/-- The value of `faultyLabel` with letters in the other case. -/
def recasedValue : String := "<Table><TR>X<td Port='P' ALIGN='Up'></TD ></th></TABLE>"

theorem outline_checkMarkup_faultyLabel :
    sameIgnoringCase faultyLabel.chars recasedValue.toList = true ∧
      (checkMarkup faultyLabel).length = 3 ∧
      ((checkMarkup { faultyLabel with value := recasedValue }).map
          fun f => f.diagnostic.outline) =
        (checkMarkup faultyLabel).map fun f => f.diagnostic.outline := by
  have hsame : sameIgnoringCase faultyLabel.chars recasedValue.toList = true := by decide +kernel
  exact ⟨hsame, by decide +kernel, outline_checkMarkup_of_sameIgnoringCase faultyLabel hsame⟩

end DotAttributes
