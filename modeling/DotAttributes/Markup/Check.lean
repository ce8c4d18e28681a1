import DotAttributes.Markup.Reading
import DotAttributes.Markup.Rule

/-!
# Checking markup labels

The tree of a label is held against the rules of its tags. A level, which is the content of
a tag or the top of the label, is checked for its neighbours first: a table must be alone on
its level but for blanks. Then its tags are checked one by one, each with its own level.
Nothing but its name and its content is checked of a tag that has no rule.

* `Markup.Problem` is what can be wrong, `Markup.check` finds all problems of a label.
-/

namespace DotAttributes.Markup

/-- What is wrong in a label. -/
inductive Problem
  | unsupported (tag : List Char)
  | selfClosing (tag : List Char)
  | misclosed (tag close : List Char)
  | misplaced (tag parent : List Char) (allowed : List String)
  | textInside (tag : List Char)
  | unknownAttribute (attr tag : List Char)
  | badValue (attr value : List Char) (domain : Domain)
  | siblings
deriving DecidableEq, Repr

/-- The wording of a problem. -/
def Problem.detail : Problem → String
  | unsupported tag =>
    let name := String.ofList tag
    s!"Tag '<{name}>' is not supported."
  | selfClosing tag =>
    let name := String.ofList tag
    s!"Tag '<{name}/>' cannot be self closing."
  | misclosed tag close =>
    let name := String.ofList tag
    let found := String.ofList close
    s!"Tag '<{name}>' is not closed (expected '</{name}>' but got '</{found}>')."
  | misplaced tag parent allowed =>
    let name := String.ofList tag
    let outer := String.ofList parent
    let list := Text.quotedList (allowed.map fun word => s!"<{word}>")
    s!"Tag '<{name}>' is not allowed inside '<{outer}>', but only inside {list}."
  | textInside tag =>
    let name := String.ofList tag
    s!"Tag '<{name}>' cannot contain a string literal."
  | unknownAttribute attr tag =>
    let name := String.ofList attr
    let outer := String.ofList tag
    s!"Attribute '{name}' is not allowed inside '<{outer}>'."
  | badValue attr value domain =>
    let name := String.ofList attr
    let text := String.ofList value
    let reason := domain.detail
    s!"The value '{text}' is not a correct {name}: {reason}"
  | siblings => "Invalid siblings."

/-! ## Neighbours on a level -/

/-- The place where content is reported: the name of a tag, or the trimmed text. -/
def Content.place : Content → Span
  | .text run => run.span
  | .tag name .. => name.span

/-- Whether content is a table. -/
def Content.isTable : Content → Bool
  | .text _ => false
  | .tag name .. => Text.sameIgnoringCase "TABLE".toList name.item

/-- The problems of a level with a table that is not alone: everything solid on it. -/
def siblingProblems (level : List Content) : List (Located Problem) :=
  let solid := level.filter Content.isSolid
  if solid.any Content.isTable && 2 ≤ solid.length then
    solid.map fun content => ⟨.siblings, content.place⟩
  else []

/-! ## One tag -/

/-- The problem of a tag that closes itself although it may not. -/
def selfClosingProblems (rule : TagRule) (name : Located (List Char))
    (close : Option (Located (List Char))) : List (Located Problem) :=
  if close.isNone && !rule.selfClosing then [⟨.selfClosing name.item, name.span⟩] else []

/-- The problem of a tag that is closed by another name. -/
def closeProblems (name : Located (List Char)) : Option (Located (List Char)) →
    List (Located Problem)
  | none => []
  | some close =>
    if Text.sameIgnoringCase close.item name.item then []
    else [⟨.misclosed name.item close.item, close.span⟩]

/-- The problem of a tag that stands in the wrong parent. -/
def parentProblems (rule : TagRule) (parent : List Char) (name : Located (List Char)) :
    List (Located Problem) :=
  if rule.parents.isEmpty || Text.containsIgnoringCase rule.parents parent then []
  else [⟨.misplaced name.item parent rule.parents, name.span⟩]

/-- The problem of an attribute of a tag. -/
def attributeProblems (rule : TagRule) (tag : List Char) (attr : Attribute) :
    List (Located Problem) :=
  let name := attr.name.item
  match rule.attributes.find? fun known => Text.sameIgnoringCase known.toList name with
  | none => [⟨.unknownAttribute name tag, attr.name.span⟩]
  | some known =>
    let domain := Domain.ofAttribute rule.name known
    let value := attr.value.item
    if domain.contains value then [] else [⟨.badValue name value domain, attr.value.span⟩]

/-- Whether content is text other than blanks. -/
def Content.isSolidText : Content → Bool
  | .text run => !run.item.isEmpty
  | .tag .. => false

/-- The problem of a tag with text in it that may not have any. -/
def textProblems (rule : TagRule) (name : Located (List Char)) (children : List Content) :
    List (Located Problem) :=
  if !rule.text && children.any Content.isSolidText then [⟨.textInside name.item, name.span⟩]
  else []

/-- The problems of a tag itself, its content aside. -/
def tagProblems (parent : List Char) (name : Located (List Char)) (attributes : List Attribute)
    (close : Option (Located (List Char))) (children : List Content) : List (Located Problem) :=
  match TagRule.find? name.item with
  | none => [⟨.unsupported name.item, name.span⟩]
  | some rule =>
    selfClosingProblems rule name close ++ closeProblems name close ++
      parentProblems rule parent name ++ attributes.flatMap (attributeProblems rule name.item) ++
      textProblems rule name children

/-! ## Levels -/

mutual

/-- The problems of content that stands in a parent. -/
def checkContent (parent : List Char) : Content → List (Located Problem)
  | .text _ => []
  | .tag name attributes close children =>
    tagProblems parent name attributes close children ++ siblingProblems children ++
      checkContents name.item children

/-- The problems of the tags of a level, one after the other. -/
def checkContents (parent : List Char) : List Content → List (Located Problem)
  | [] => []
  | content :: rest => checkContent parent content ++ checkContents parent rest

end

/-- The problems of a label. -/
def check (label : List Content) : List (Located Problem) :=
  siblingProblems label ++ checkContents rootName.toList label

end DotAttributes.Markup
