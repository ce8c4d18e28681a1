import DotAttributes.Proofs.Agreement
import DotAttributes.Proofs.Checks
import DotAttributes.Proofs.Color.Folding
import DotAttributes.Proofs.Document.Map

/-!
# Colors, color schemes and shapes ignore case

Two documents that differ only in the case of letters in the values of colors, color lists, color
schemes and shapes have the same diagnostics up to their words: severities, codes, attributes and
places (`outline_validate_of_sameIgnoringCase`).

It is enough to compare a document with the one in which all these values are folded
(`Document.foldCase`). At a folded site the color scheme and the shape are folded
(`Site.colorScheme_foldCase`, `Site.shape_foldCase`). Colors do not see it, because schemes and
their colors are looked up ignoring case; style lists and labels do not see it either, because they
ask the shape only whether it is one of some names, ignoring case.
-/

namespace DotAttributes

/-! ## Values that ignore case -/

/-- Whether values of a type are colors, color lists, color schemes or shapes. -/
def AttributeType.ignoresCase : AttributeType → Bool
  | color | colorList | colorScheme | shape => true
  | arrow | style | label | number _ | enumeration _ | unchecked => false

/-- The names of the attributes that have such a type on elements of some kind. -/
def AttributeType.caselessNames : List String :=
  (table.filter fun row => row.type.ignoresCase).flatMap Row.names

/-- Every attribute of such a type has one of the names. -/
theorem AttributeType.mem_caselessNames {kind : ElementKind} {name : String}
    (h : (of kind name).ignoresCase = true) : name ∈ caselessNames := by
  have hread : of kind name ≠ unchecked := fun heq => by
    rw [heq] at h
    cases h
  obtain ⟨row, hrow, htype, hname, -⟩ := exists_row hread
  rw [← htype] at h
  exact List.mem_flatMap.2 ⟨row, List.mem_filter.2 ⟨hrow, h⟩, hname⟩

/-- On elements of the other kinds, attributes of these names are not read. -/
theorem AttributeType.ignoresCase_of_mem {name : String} (h : name ∈ caselessNames)
    (kind : ElementKind) :
    (of kind name).ignoresCase = true ∨ of kind name = unchecked := by
  have hrows : ∀ name ∈ caselessNames, ∀ row ∈ table, name ∈ row.names →
      row.type.ignoresCase = true := by
    decide
  by_cases hread : of kind name = unchecked
  · exact Or.inr hread
  · obtain ⟨row, hrow, htype, hname, -⟩ := exists_row hread
    exact Or.inl (htype ▸ hrows name h row hrow hname)

namespace Attribute

/-- Folds the value of a color, a color list, a color scheme or a shape; other attributes stay as
they are. -/
def foldCase (a : Attribute) : Attribute :=
  if a.name ∈ AttributeType.caselessNames then { a with value := Text.foldString a.value } else a

variable (a : Attribute)

@[simp] theorem foldCase_name : a.foldCase.name = a.name := by
  unfold foldCase
  split <;> rfl

theorem foldCase_of_not_mem {a : Attribute} (h : a.name ∉ AttributeType.caselessNames) :
    a.foldCase = a :=
  if_neg h

theorem chars_foldCase {a : Attribute} (h : a.name ∈ AttributeType.caselessNames) :
    a.foldCase.chars = Text.foldCase a.chars := by
  rw [foldCase, if_pos h, chars]
  exact Text.toList_foldString a.value

/-- Folding keeps the place of the value, and with it the places within the value. -/
theorem absolute_foldCase (s : Span) : a.foldCase.absolute s = a.absolute s := by
  unfold foldCase
  split <;> rfl

theorem valueSpan_foldCase : a.foldCase.valueSpan = a.valueSpan := by
  by_cases h : a.name ∈ AttributeType.caselessNames
  · rw [valueSpan, chars_foldCase h, Text.size_foldCase, valueSpan, foldCase, if_pos h]
    rfl
  · rw [foldCase_of_not_mem h]

/-- Two attributes are folded to the same one if they differ at most in the case of the value, and
that only if it is a color, a color list, a color scheme or a shape. -/
theorem foldCase_eq_foldCase_iff {a b : Attribute} : a.foldCase = b.foldCase ↔
    a.name = b.name ∧ a.delimiter = b.delimiter ∧ a.span = b.span ∧
      if a.name ∈ AttributeType.caselessNames then Text.sameIgnoringCase a.chars b.chars
      else a.value = b.value := by
  obtain ⟨name, value, delimiter, span⟩ := a
  obtain ⟨name', value', delimiter', span'⟩ := b
  by_cases hname : name = name'
  · subst hname
    by_cases h : name ∈ AttributeType.caselessNames
    · simp [foldCase, h, chars, Text.foldString_eq_iff, and_comm, and_assoc]
    · simp [foldCase, h, and_comm, and_left_comm]
  · refine iff_of_false (fun h => hname ?_) fun h => hname h.1
    have := congrArg Attribute.name h
    rwa [foldCase_name, foldCase_name] at this

end Attribute

/-! ## Folded sites -/

namespace Site

/-- The site with its attributes and defaults folded. -/
def foldCase (site : Site) : Site := site.map Attribute.foldCase

variable (site : Site)

@[simp] theorem foldCase_kind : site.foldCase.kind = site.kind := rfl

/-- At a folded site, what is looked up under one of the names is folded. -/
theorem lookup?_foldCase (kind : ElementKind) {name : String}
    (h : name ∈ AttributeType.caselessNames) : site.foldCase.lookup? kind name =
      (site.lookup? kind name).map Text.foldString := by
  have hvalue (a : Attribute) (ha : a.name = name) :
      a.foldCase.value = Text.foldString a.value := by
    rw [Attribute.foldCase, if_pos (ha ▸ h)]
  have hlist := value?_map Attribute.foldCase_name hvalue
  rw [lookup?, lookup?, foldCase, map, defaultsFor_map, hlist, hlist]
  cases AttributeList.value? site.own name <;> rfl

theorem colorScheme_foldCase :
    site.foldCase.colorScheme.toList = Text.foldCase site.colorScheme.toList := by
  rw [colorScheme, colorScheme, lookup?_foldCase _ _ (by decide), foldCase_kind]
  cases site.lookup? site.kind schemeAttribute with
  | none => decide
  | some scheme => exact Text.toList_foldString scheme

theorem shape_foldCase : site.foldCase.shape.toList = Text.foldCase site.shape.toList := by
  rw [shape, shape, lookup?_foldCase _ _ (by decide)]
  cases site.lookup? .node shapeAttribute with
  | none => decide
  | some shape => exact Text.toList_foldString shape

theorem hasStripes_foldCase : site.foldCase.hasStripes = site.hasStripes := by
  rw [hasStripes, NodeShape.hasStripes, shape_foldCase, Text.containsIgnoringCase_foldCase]
  rfl

theorem hasRecords_foldCase : site.foldCase.hasRecords = site.hasRecords := by
  rw [hasRecords, NodeShape.isRecord, shape_foldCase, Text.containsIgnoringCase_foldCase]
  rfl

end Site

/-! ## Checks of folded values -/

variable (a : Attribute) (site : Site)

theorem outlines_notReadable (type detail : String) : outlines [a.notReadable type detail] =
    [⟨.error, some Kind.syntaxError.code, some a.name, some a.valueSpan⟩] := by
  simp [outlines, Attribute.notReadable, Finding.kind, Problem.kind, Kind.severity,
    Finding.attrName?, Finding.span]

theorem outlines_findings_color (inList : Bool) (problems : List (Located Color.Problem)) :
    outlines (a.findings (.color inList) problems) = (problems.map Located.span).map fun span =>
      ⟨.error, some Kind.colorNotInScheme.code, some a.name, some (a.absolute span)⟩ := by
  simp [outlines, Attribute.findings, Finding.kind, Problem.kind, Kind.severity,
    Finding.attrName?, Finding.span]

variable {a}

theorem readColors_foldCase (inList : Bool) (cs : List Char) :
    (readColors inList (Text.foldCase cs)).toOption =
      (readColors inList cs).toOption.map (List.map Color.Item.foldCase) := by
  cases inList with
  | true => exact Color.readList_foldCase cs
  | false =>
    have hread := Color.read_foldCase cs
    rcases cases_of_toOption_eq_map hread with ⟨e, e', he, he'⟩ | ⟨item, hitem, hitem'⟩
    · simp only [readColors, he, he']
      rfl
    · simp only [readColors, hitem, hitem']
      rfl

theorem checkColors_foldCase (inList : Bool) (h : a.name ∈ AttributeType.caselessNames) :
    outlines (checkColors site.foldCase inList a.foldCase) =
      outlines (checkColors site inList a) := by
  unfold checkColors
  rw [Attribute.chars_foldCase h]
  rcases cases_of_toOption_eq_map (readColors_foldCase inList a.chars)
    with ⟨e, e', he, he'⟩ | ⟨items, hitems, hitems'⟩
  · rw [he, he']
    simp only [outlines_notReadable, Attribute.foldCase_name, Attribute.valueSpan_foldCase]
  · rw [hitems, hitems']
    simp only [outlines_findings_color, Site.colorScheme_foldCase, Color.map_span_check_foldCase,
      Attribute.foldCase_name, Attribute.absolute_foldCase]

theorem checkScheme_foldCase (h : a.name ∈ AttributeType.caselessNames) :
    outlines (checkScheme a.foldCase) = outlines (checkScheme a) := by
  unfold checkScheme
  rw [Attribute.chars_foldCase h, Scheme.find?_foldCase]
  split
  · rfl
  · simp [outlines, Finding.kind, Finding.attrName?, Finding.span, Problem.kind,
      Attribute.valueSpan_foldCase]

theorem checkShape_foldCase (h : a.name ∈ AttributeType.caselessNames) :
    outlines (checkShape a.foldCase) = outlines (checkShape a) := by
  have hknown : NodeShape.isKnown a.foldCase.value = NodeShape.isKnown a.value := by
    have hchars : a.foldCase.value.toList = Text.foldCase a.value.toList :=
      Attribute.chars_foldCase h
    simp only [NodeShape.isKnown, hchars, Text.containsIgnoringCase_foldCase]
  unfold checkShape
  rw [hknown]
  split
  · rfl
  · simp only [outlines_notReadable, Attribute.foldCase_name, Attribute.valueSpan_foldCase]

/-- The other checks see of a folded site what they saw before: its kind, and what its shape can
be used for. -/
theorem checkAttribute_foldCase_site (config : Config)
    (h : (AttributeType.of site.kind a.name).ignoresCase = false) :
    config.checkAttribute site.foldCase a = config.checkAttribute site a := by
  unfold Config.checkAttribute
  rw [Site.foldCase_kind]
  cases htype : AttributeType.of site.kind a.name with
  | style => simp only [checkStyle, Site.foldCase_kind, Site.hasStripes_foldCase]
  | label => simp only [Config.checkLabel, Site.hasRecords_foldCase]
  | arrow | number | enumeration | unchecked => rfl
  | color | colorList | colorScheme | shape =>
    simp [htype, AttributeType.ignoresCase] at h

variable (a)

/-- **Attributes.** A folded attribute at a folded site has the findings of the attribute, up to
their words. -/
theorem checkAttribute_foldCase (config : Config) :
    outlines (config.checkAttribute site.foldCase a.foldCase) =
      outlines (config.checkAttribute site a) := by
  by_cases hname : a.name ∈ AttributeType.caselessNames
  · unfold Config.checkAttribute
    rw [Attribute.foldCase_name, Site.foldCase_kind]
    have htype := AttributeType.ignoresCase_of_mem hname site.kind
    cases hof : AttributeType.of site.kind a.name with
    | color => exact checkColors_foldCase site false hname
    | colorList => exact checkColors_foldCase site true hname
    | colorScheme => exact checkScheme_foldCase hname
    | shape => exact checkShape_foldCase hname
    | unchecked => rfl
    | arrow | style | label | number | enumeration =>
      rw [hof] at htype
      simp [AttributeType.ignoresCase] at htype
  · rw [Attribute.foldCase_of_not_mem hname, checkAttribute_foldCase_site]
    rw [← Bool.not_eq_true]
    exact fun htype => hname (AttributeType.mem_caselessNames htype)

/-! ## Documents -/

/-- The document with all colors, color lists, color schemes and shapes folded. -/
def Document.foldCase (document : Document) : Document := document.map Attribute.foldCase id

/-- Two documents are the same up to the case of letters in colors, color lists, color schemes and
shapes, wherever these stand (see `Attribute.foldCase_eq_foldCase_iff`). -/
def Document.SameIgnoringCase (document document' : Document) : Prop :=
  document.foldCase = document'.foldCase

/-- A folded document has the diagnostics of the document, up to their words. -/
theorem outline_validate_foldCase (config : Config) (document : Document) :
    (config.validate document.foldCase).diagnostics.map Diagnostic.outline =
      (config.validate document).diagnostics.map Diagnostic.outline := by
  have hcheck (visit : Visit) : outlines (config.check (visit.map Attribute.foldCase id)) =
      outlines (config.check visit) := by
    cases visit with
    | attr site a => exact checkAttribute_foldCase a site config
    | operator directed op => rfl
  have houtlines (findings : List Finding) :
      (findings.map Finding.diagnostic).map Diagnostic.outline = outlines findings :=
    List.map_map
  rw [Config.validate, Config.validate, houtlines, houtlines, Config.findings, Config.findings,
    Document.foldCase, Document.visits_map, List.flatMap_map, outlines, outlines,
    List.map_flatMap, List.map_flatMap]
  exact List.flatMap_congr fun visit _ => hcheck visit

/-- **Colors, color schemes and shapes ignore case.** Two documents that are the same up to the case
of letters in them have the same sequence of diagnostics, up to their words. -/
theorem outline_validate_of_sameIgnoringCase (config : Config) {document document' : Document}
    (h : document.SameIgnoringCase document') :
    (config.validate document).diagnostics.map Diagnostic.outline =
      (config.validate document').diagnostics.map Diagnostic.outline := by
  rw [← outline_validate_foldCase config document, h, outline_validate_foldCase]

/-- A digraph whose nodes have a color scheme and a shape. One of them is striped, its label is no
record, and to it belongs a graph with a cluster and a background of two colors. -/
def stripedDocument (scheme shape color background : String) : Document :=
  let cluster := { Element.subgraph (some "cluster") with
    body := [.assign (.writtenAt 100 .quoted "bgcolor" background)] }
  let node := { Element.node "a" with
    attributes := [.writtenAt 40 .bare "color" color, .writtenAt 60 .quoted "label" "\x7b",
      .writtenAt 80 .bare "style" "striped"]
    nested := some ⟨false, false, { Element.graph with body := [.element cluster] }⟩ }
  ⟨true, false, { Element.graph with
    body := [.defaults ⟨.node, [.writtenAt 10 .bare "colorscheme" scheme,
      .writtenAt 20 .bare "shape" shape]⟩, .element node] }⟩

theorem outline_validate_stripedDocument :
    (stripedDocument "svg" "Mrecord" "fuchsia" "#fFaA0e:nocolor").SameIgnoringCase
        (stripedDocument "SVG" "mRecord" "FUCHSIA" "#FfAa0E:NoColor") ∧
      (validate (stripedDocument "svg" "Mrecord" "fuchsia" "#fFaA0e:nocolor")).map
        Diagnostic.code = [some "SYNTAX_DIAGNOSTIC", some "STYLE_SHAPE_MISMATCH",
          some "COLOR_NOT_IN_SCHEME"] ∧
      (Config.full.validate
          (stripedDocument "svg" "Mrecord" "fuchsia" "#fFaA0e:nocolor")).diagnostics.map
          Diagnostic.outline =
        (Config.full.validate
          (stripedDocument "SVG" "mRecord" "FUCHSIA" "#FfAa0E:NoColor")).diagnostics.map
          Diagnostic.outline := by
  have hscheme : (Attribute.writtenAt 10 .bare "colorscheme" "svg").foldCase =
      (Attribute.writtenAt 10 .bare "colorscheme" "SVG").foldCase := by decide +kernel
  have hshape : (Attribute.writtenAt 20 .bare "shape" "Mrecord").foldCase =
      (Attribute.writtenAt 20 .bare "shape" "mRecord").foldCase := by decide +kernel
  have hcolor : (Attribute.writtenAt 40 .bare "color" "fuchsia").foldCase =
      (Attribute.writtenAt 40 .bare "color" "FUCHSIA").foldCase := by decide +kernel
  have hbackground : (Attribute.writtenAt 100 .quoted "bgcolor" "#fFaA0e:nocolor").foldCase =
      (Attribute.writtenAt 100 .quoted "bgcolor" "#FfAa0E:NoColor").foldCase := by decide +kernel
  have hsame : (stripedDocument "svg" "Mrecord" "fuchsia" "#fFaA0e:nocolor").SameIgnoringCase
      (stripedDocument "SVG" "mRecord" "FUCHSIA" "#FfAa0E:NoColor") := by
    simp only [Document.SameIgnoringCase, Document.foldCase, stripedDocument, Document.map,
      Element.map, mapBody, Statement.map, DefaultBlock.map, Element.graph, Element.subgraph,
      Element.node, Element.bare, List.map_cons, List.map_nil, hscheme, hshape, hcolor,
      hbackground]
  exact ⟨hsame, by decide +kernel, outline_validate_of_sameIgnoringCase Config.full hsame⟩

end DotAttributes
