import DotAttributes.Proofs.Markup.Grammar
import DotAttributes.Proofs.Slice
import DotAttributes.Validation
import Mathlib.Logic.Basic
import Mathlib.Tactic.ByContra
import Mathlib.Tactic.MkIffOfInductiveProp

/-!
# The content model of markup labels

Which labels are right is said level by level, for the top of a label and the content of every
tag in it, however deep (`IsLevel`):

* every tag is known, closes itself only if it may, is closed by its own name, stands where it
  may, has only attributes that it takes with values they take, and no text if it is for
  structure (`Tag.IsSound`);
* a table is alone on its level but for blanks (`TablesAlone`).

A label that can be read has no finding exactly if it is right (`checkMarkup_eq_nil_iff`). The
checks go through the tree with the name of the tag around each level and look the rules up by
name. Behind the statement is `check_eq_nil_iff`, which turns that into a statement about all
levels, and one equivalence for each of the checks of a tag.
-/

namespace DotAttributes.Markup

open Text

/-! ## Levels -/

/-- A tag with everything that belongs to it. -/
structure Tag where
  name : Located (List Char)
  attributes : List Attribute
  close : Option (Located (List Char))
  children : List Content

/-- A tag as content of a level. -/
def Tag.content (tag : Tag) : Content := .tag tag.name tag.attributes tag.close tag.children

/-- The levels of a label, each with the name of the tag around it; the top has none. -/
inductive IsLevel (label : List Content) : Option (List Char) → List Content → Prop
  | top : IsLevel label none label
  | inside {parent : Option (List Char)} {level : List Content} (tag : Tag)
      (level_isLevel : IsLevel label parent level) (tag_mem : tag.content ∈ level) :
      IsLevel label (some tag.name.item) tag.children

/-! ## Rules -/

/-- Whether a name is one of the words, up to case. -/
def IsOneOf (words : List String) (name : List Char) : Prop :=
  containsIgnoringCase words name = true

/-- The tags there are. -/
def knownTags : List String :=
  ["TABLE", "TR", "TD", "FONT", "B", "I", "U", "O", "S", "SUB", "SUP", "BR", "HR", "VR", "IMG"]

/-- A tag stands where it may: the parts of a table in the part that they belong to, a table at
the top or in a tag that can hold one. -/
@[mk_iff]
structure IsPlacedIn (parent : Option (List Char)) (name : List Char) : Prop where
  row : IsOneOf ["TR", "HR"] name → ∃ outer ∈ parent, IsOneOf ["TABLE"] outer
  cell : IsOneOf ["TD", "VR"] name → ∃ outer ∈ parent, IsOneOf ["TR"] outer
  image : IsOneOf ["IMG"] name → ∃ outer ∈ parent, IsOneOf ["TD"] outer
  table : IsOneOf ["TABLE"] name →
    ∀ outer ∈ parent, IsOneOf ["TD", "FONT", "B", "I", "U", "O"] outer

/-- A value is in a set of values. -/
def Domain.Holds (value : List Char) : Domain → Prop
  | oneOf words => IsOneOf words (trim value)
  | listOf words => ∀ item ∈ pieces (· == ',') value, IsOneOf words (trim item)
  | letters set => value ≠ [] ∧ ∀ c ∈ value, IsOneOf set [c]
  | integers low high => ∃ n, Integer.read (trim value) = .ok n ∧ low ≤ n ∧ n ≤ high
  | nonNegative => ∃ x, Binary64.read? (trim value) = some x ∧ x.isFinite = true ∧ .zero false ≤ x
  | any => True

/-- A tag takes an attribute with its value. -/
def Attribute.IsAllowed (tag : List Char) (attr : Attribute) : Prop :=
  ∃ rule ∈ tagRules, sameIgnoringCase rule.name.toList tag = true ∧
    ∃ known ∈ rule.attributes, sameIgnoringCase known.toList attr.name.item = true ∧
      (Domain.ofAttribute rule.name known).Holds attr.value.item

/-- A tag in a parent keeps to the rules. -/
@[mk_iff]
structure Tag.IsSound (parent : Option (List Char)) (tag : Tag) : Prop where
  known : IsOneOf knownTags tag.name.item
  selfClosing : tag.close = none → IsOneOf ["BR", "HR", "VR", "IMG"] tag.name.item
  close : ∀ close ∈ tag.close, sameIgnoringCase close.item tag.name.item = true
  placed : IsPlacedIn parent tag.name.item
  attributes : ∀ attr ∈ tag.attributes, attr.IsAllowed tag.name.item
  text : IsOneOf ["TABLE", "TR", "BR", "HR", "VR", "IMG"] tag.name.item →
    ∀ run, .text run ∈ tag.children → isBlankText run.item = true

/-- Content that is nothing but blanks. -/
def Content.IsBlank : Content → Prop
  | .text run => isBlankText run.item = true
  | .tag .. => False

/-- Beside a table there is nothing but blanks. -/
def TablesAlone (level : List Content) : Prop :=
  ∀ before table after, level = before ++ table :: after → table.isTable = true →
    ∀ content ∈ before ++ after, content.IsBlank

/-- A label keeps to the rules on every level. -/
structure IsSound (label : List Content) : Prop where
  tags : ∀ {parent level}, IsLevel label parent level →
    ∀ tag : Tag, tag.content ∈ level → tag.IsSound parent
  tables : ∀ {parent level}, IsLevel label parent level → TablesAlone level

/-! ## Names -/

theorem isOneOf_congr {name name' : List Char} (h : sameIgnoringCase name name' = true)
    (words : List String) : IsOneOf words name ↔ IsOneOf words name' := by
  unfold IsOneOf
  rw [containsIgnoringCase_congr h]

/-- Where names are unique up to case, an item is found by its name. -/
theorem find?_eq_some_iff_of_unique {α : Type} {items : List α} {nameOf : α → List Char}
    (hunique : ∀ x ∈ items, ∀ y ∈ items, sameIgnoringCase (nameOf x) (nameOf y) = true → x = y)
    {name : List Char} {x : α} :
    (items.find? fun y => sameIgnoringCase (nameOf y) name) = some x ↔
      x ∈ items ∧ sameIgnoringCase (nameOf x) name = true := by
  constructor
  · intro h
    have hname := List.find?_some h
    exact ⟨List.mem_of_find?_eq_some h, hname⟩
  · rintro ⟨hx, hname⟩
    cases hfind : items.find? fun y => sameIgnoringCase (nameOf y) name with
    | none => exact absurd hname (List.find?_eq_none.1 hfind x hx)
    | some y =>
      have hy := List.find?_some hfind
      have hsame : sameIgnoringCase (nameOf y) (nameOf x) = true := by
        rw [sameIgnoringCase_iff] at hy hname ⊢
        rw [hy, hname]
      rw [hunique y (List.mem_of_find?_eq_some hfind) x hx hsame]

/-- The rule of a tag is the one of its name. -/
theorem TagRule.find?_eq_some_iff {name : List Char} {rule : TagRule} :
    find? name = some rule ↔ rule ∈ tagRules ∧ sameIgnoringCase rule.name.toList name = true :=
  find?_eq_some_iff_of_unique (by decide +kernel)

/-- The attributes of a tag are found by their names. -/
theorem TagRule.find?_attributes_eq_some_iff {rule : TagRule} (hrule : rule ∈ tagRules)
    {name : List Char} {known : String} :
    (rule.attributes.find? fun word => sameIgnoringCase word.toList name) = some known ↔
      known ∈ rule.attributes ∧ sameIgnoringCase known.toList name = true := by
  have hunique : ∀ rule ∈ tagRules, ∀ word ∈ rule.attributes, ∀ word' ∈ rule.attributes,
      sameIgnoringCase word.toList word'.toList = true → word = word' := by
    decide +kernel
  exact find?_eq_some_iff_of_unique (hunique rule hrule)

/-- The tags that have a rule are the known ones. -/
theorem TagRule.find?_isSome_iff {name : List Char} :
    (find? name).isSome = true ↔ IsOneOf knownTags name := by
  have hnames : tagRules.map TagRule.name = knownTags := by decide
  rw [find?, List.find?_isSome, IsOneOf, containsIgnoringCase_iff, ← hnames]
  constructor
  · rintro ⟨rule, hmem, hname⟩
    exact ⟨rule.name, List.mem_map_of_mem hmem, hname⟩
  · rintro ⟨word, hmem, hname⟩
    obtain ⟨rule, hrule, rfl⟩ := List.mem_map.1 hmem
    exact ⟨rule, hrule, hname⟩

/-- No tag that is known has the name of the top level. -/
theorem not_isOneOf_rootName {name : List Char} (h : IsOneOf knownTags name) :
    ¬ IsOneOf [rootName] name := by
  intro hroot
  obtain ⟨root, hmem, hroot⟩ := containsIgnoringCase_iff.1 hroot
  rw [List.mem_singleton.1 hmem] at hroot
  have hknown : IsOneOf knownTags rootName.toList := (isOneOf_congr hroot knownTags).2 h
  revert hknown
  unfold IsOneOf
  decide +kernel

/-- Whether a value is in a domain is decided rightly. -/
theorem Domain.contains_iff_holds {domain : Domain} {value : List Char} :
    domain.contains value = true ↔ domain.Holds value := by
  cases domain with
  | oneOf words => exact Iff.rfl
  | listOf words => exact List.all_eq_true
  | letters set => simp [contains, Holds, IsOneOf]
  | integers low high =>
    simp only [contains, Holds, Integer.isBetween]
    cases Integer.read (trim value) <;> simp
  | nonNegative =>
    simp only [contains, Holds]
    cases Binary64.read? (trim value) <;> simp
  | any => exact iff_of_true rfl trivial

/-- The parent of a level is one of some words, among which the name of the top is not. -/
theorem isOneOf_parent_iff {words : List String} (h : ¬ IsOneOf words rootName.toList)
    (parent : Option (List Char)) :
    IsOneOf words (parent.getD rootName.toList) ↔ ∃ outer ∈ parent, IsOneOf words outer := by
  cases parent with
  | none => simpa using h
  | some outer => simp

/-- The parent of a level is one of some words, or the level is the top of the label. -/
theorem isOneOf_rootName_parent_iff (words : List String) {parent : Option (List Char)}
    (hparent : ∀ outer ∈ parent, IsOneOf knownTags outer) :
    IsOneOf (rootName :: words) (parent.getD rootName.toList) ↔
      ∀ outer ∈ parent, IsOneOf words outer := by
  cases parent with
  | none => simp [IsOneOf, containsIgnoringCase, sameIgnoringCase]
  | some outer =>
    have hroot : ¬ IsOneOf [rootName] outer := not_isOneOf_rootName (hparent outer rfl)
    simp_all [IsOneOf, containsIgnoringCase]

/-! ## The checks of a tag -/

section

variable {rule : TagRule} (hrule : rule ∈ tagRules) {name : Located (List Char)}
  (hname : sameIgnoringCase rule.name.toList name.item = true)

include hrule hname

/-- What the rules say of the tags of some names, they say of the tag. -/
theorem flag_iff (flag : TagRule → Bool) {words : List String}
    (hflag : ∀ rule ∈ tagRules, flag rule = containsIgnoringCase words rule.name.toList) :
    flag rule = true ↔ IsOneOf words name.item := by
  rw [hflag rule hrule]
  exact isOneOf_congr hname words

theorem selfClosingProblems_eq_nil_iff {close : Option (Located (List Char))} :
    selfClosingProblems rule name close = [] ↔
      (close = none → IsOneOf ["BR", "HR", "VR", "IMG"] name.item) := by
  rw [← flag_iff hrule hname TagRule.selfClosing (by decide +kernel)]
  cases close with
  | none => simp [selfClosingProblems]
  | some close => simp [selfClosingProblems]

theorem textProblems_eq_nil_iff {children : List Content} :
    textProblems rule name children = [] ↔
      (IsOneOf ["TABLE", "TR", "BR", "HR", "VR", "IMG"] name.item →
        ∀ content ∈ children, content.isSolidText = false) := by
  rw [← flag_iff hrule hname (fun rule => !rule.text) (by decide +kernel)]
  simp [textProblems]

/-- A tag of the parents that its rule names stands where it may. The top of the label has a name
of its own there, which no tag has that is known. -/
theorem parentProblems_eq_nil_iff {parent : Option (List Char)}
    (hparent : ∀ outer ∈ parent, IsOneOf knownTags outer) :
    parentProblems rule (parent.getD rootName.toList) name = [] ↔
      IsPlacedIn parent name.item := by
  -- the groups of tags that need a parent, of which a rule is in one at most, and its parents
  have hrules : ∀ rule ∈ tagRules,
      (containsIgnoringCase ["TR", "HR"] rule.name.toList,
        containsIgnoringCase ["TD", "VR"] rule.name.toList,
        containsIgnoringCase ["IMG"] rule.name.toList,
        containsIgnoringCase ["TABLE"] rule.name.toList, rule.parents) ∈
      [(true, false, false, false, ["TABLE"]), (false, true, false, false, ["TR"]),
        (false, false, true, false, ["TD"]),
        (false, false, false, true, [rootName, "TD", "FONT", "B", "I", "U", "O"]),
        (false, false, false, false, [])] := by
    decide +kernel
  have hgroups := hrules rule hrule
  simp only [containsIgnoringCase_congr hname, List.mem_cons, Prod.mk.injEq, List.not_mem_nil,
    or_false] at hgroups
  have hproblems : parentProblems rule (parent.getD rootName.toList) name = [] ↔
      rule.parents = [] ∨ IsOneOf rule.parents (parent.getD rootName.toList) := by
    rw [or_iff_not_imp_left]
    simp [parentProblems, IsOneOf]
  have hword (word : String) (h : ¬ IsOneOf [word] rootName.toList) :=
    isOneOf_parent_iff h parent
  rw [hproblems, isPlacedIn_iff]
  rcases hgroups with ⟨hrow, hcell, himage, htable, hparents⟩ |
    ⟨hrow, hcell, himage, htable, hparents⟩ | ⟨hrow, hcell, himage, htable, hparents⟩ |
    ⟨hrow, hcell, himage, htable, hparents⟩ | ⟨hrow, hcell, himage, htable, hparents⟩
  · have houter := hword "TABLE" (by unfold IsOneOf; decide +kernel)
    simpa [IsOneOf, hrow, hcell, himage, htable, hparents] using houter
  · have houter := hword "TR" (by unfold IsOneOf; decide +kernel)
    simpa [IsOneOf, hrow, hcell, himage, htable, hparents] using houter
  · have houter := hword "TD" (by unfold IsOneOf; decide +kernel)
    simpa [IsOneOf, hrow, hcell, himage, htable, hparents] using houter
  · have houter := isOneOf_rootName_parent_iff ["TD", "FONT", "B", "I", "U", "O"] hparent
    simpa [IsOneOf, hrow, hcell, himage, htable, hparents] using houter
  · simp [IsOneOf, hrow, hcell, himage, htable, hparents]

/-- An attribute is right if the rule has it with a value of its domain. -/
theorem attributeProblems_eq_nil_iff {attr : Attribute} :
    attributeProblems rule name.item attr = [] ↔ attr.IsAllowed name.item := by
  simp only [attributeProblems]
  constructor
  · intro h
    split at h
    · cases h
    · next known hfind =>
      obtain ⟨hknown, hsame⟩ := (TagRule.find?_attributes_eq_some_iff hrule).1 hfind
      refine ⟨rule, hrule, hname, known, hknown, hsame, ?_⟩
      rw [← Domain.contains_iff_holds]
      by_contra hcontains
      simp [hcontains] at h
  · rintro ⟨rule', hrule', hname', known, hknown, hsame, hholds⟩
    have hfind := TagRule.find?_eq_some_iff.2 ⟨hrule, hname⟩
    have hfind' := TagRule.find?_eq_some_iff.2 ⟨hrule', hname'⟩
    cases hfind.symm.trans hfind'
    rw [(TagRule.find?_attributes_eq_some_iff hrule).2 ⟨hknown, hsame⟩]
    exact if_pos (Domain.contains_iff_holds.2 hholds)

end

theorem closeProblems_eq_nil_iff {name : Located (List Char)}
    {close : Option (Located (List Char))} :
    closeProblems name close = [] ↔
      ∀ outer ∈ close, sameIgnoringCase outer.item name.item = true := by
  cases close with
  | none => simp [closeProblems]
  | some close => simp [closeProblems]

/-- Only tags that are known have no problem. -/
theorem isOneOf_knownTags_of_tagProblems {parent : List Char} {tag : Tag}
    (h : tagProblems parent tag.name tag.attributes tag.close tag.children = []) :
    IsOneOf knownTags tag.name.item := by
  rw [← TagRule.find?_isSome_iff]
  unfold tagProblems at h
  split at h
  · cases h
  · next rule hfind => rw [hfind, Option.isSome_some]

/-- A tag in a known parent has no problem of its own exactly if it keeps to the rules. -/
theorem tagProblems_eq_nil_iff {parent : Option (List Char)} {tag : Tag}
    (hparent : ∀ outer ∈ parent, IsOneOf knownTags outer)
    (hchildren : ∀ content ∈ tag.children, content.isSolid = false ↔ content.IsBlank) :
    tagProblems (parent.getD rootName.toList) tag.name tag.attributes tag.close tag.children = [] ↔
      tag.IsSound parent := by
  have hknown : (TagRule.find? tag.name.item).isSome = true ↔ IsOneOf knownTags tag.name.item :=
    TagRule.find?_isSome_iff
  unfold tagProblems
  split
  · next hfind =>
    rw [hfind] at hknown
    refine iff_of_false (List.cons_ne_nil _ _) fun hsound => ?_
    exact Bool.false_ne_true (hknown.2 hsound.known)
  · next rule hfind =>
    obtain ⟨hrule, hname⟩ := TagRule.find?_eq_some_iff.1 hfind
    have htext : (∀ content ∈ tag.children, content.isSolidText = false) ↔
        ∀ run, .text run ∈ tag.children → isBlankText run.item = true := by
      constructor
      · intro h run hrun
        exact (hchildren _ hrun).1 (h _ hrun)
      · intro h content hcontent
        cases content with
        | text run => exact (hchildren _ hcontent).2 (h run hcontent)
        | tag => rfl
    simp only [List.append_eq_nil_iff, List.flatMap_eq_nil_iff,
      selfClosingProblems_eq_nil_iff hrule hname, closeProblems_eq_nil_iff,
      parentProblems_eq_nil_iff hrule hname hparent, attributeProblems_eq_nil_iff hrule hname,
      textProblems_eq_nil_iff hrule hname, htext]
    rw [Tag.isSound_iff, iff_true_intro (hknown.1 (hfind ▸ rfl)), true_and]
    simp only [and_assoc]

/-! ## Levels of a label -/

theorem Content.isSolid_of_isTable {content : Content} (h : content.isTable = true) :
    content.isSolid = true := by
  cases content with
  | text run => cases h
  | tag => rfl

/-- A level has a table if one is among its solid content. -/
theorem any_isTable_filter_isSolid (level : List Content) :
    (level.filter Content.isSolid).any Content.isTable = level.any Content.isTable := by
  rw [List.any_filter]
  refine List.any_congr rfl fun content => ?_
  cases htable : content.isTable with
  | false => exact Bool.and_false _
  | true => rw [content.isSolid_of_isTable htable, Bool.and_self]

/-- A level has no problem if a table on it is the only solid content. -/
theorem siblingProblems_eq_nil_iff_length {level : List Content} :
    siblingProblems level = [] ↔
      ∀ table ∈ level, table.isTable = true → (level.filter Content.isSolid).length < 2 := by
  have hany : (level.filter Content.isSolid).any Content.isTable = true ↔
      ∃ table ∈ level, table.isTable = true := by
    rw [any_isTable_filter_isSolid, List.any_eq_true]
  simp only [siblingProblems, Bool.and_eq_true, decide_eq_true_eq, hany]
  split
  · next h =>
    obtain ⟨⟨table, hmem, htable⟩, hlength⟩ := h
    refine iff_of_false (fun hnil => ?_) fun h => ?_
    · rw [List.map_eq_nil_iff] at hnil
      simp [hnil] at hlength
    · exact absurd (h table hmem htable) (Nat.not_lt.2 hlength)
  · next h =>
    refine iff_of_true rfl fun table hmem htable => Nat.not_le.1 fun hlength => ?_
    exact h ⟨⟨table, hmem, htable⟩, hlength⟩

/-- A level without a problem has its tables alone. -/
theorem siblingProblems_eq_nil_iff {level : List Content}
    (hlevel : ∀ content ∈ level, content.isSolid = false ↔ content.IsBlank) :
    siblingProblems level = [] ↔ TablesAlone level := by
  -- beside one table, all solid content is one too many
  have hlength : ∀ before table after, level = before ++ table :: after → table.isTable = true →
      ((level.filter Content.isSolid).length < 2 ↔
        ∀ content ∈ before ++ after, content.IsBlank) := by
    rintro before table after rfl htable
    have hone : ((before ++ table :: after).filter Content.isSolid).length =
        ((before ++ after).filter Content.isSolid).length + 1 := by
      simp only [List.filter_append, List.filter_cons, table.isSolid_of_isTable htable, if_true,
        List.length_append, List.length_cons]
      omega
    have hblank : ∀ content ∈ before ++ after,
        (¬ content.isSolid = true ↔ content.IsBlank) := by
      intro content hcontent
      rw [Bool.not_eq_true]
      refine hlevel content ?_
      rcases List.mem_append.1 hcontent with hbefore | hafter
      · exact List.mem_append_left _ hbefore
      · exact List.mem_append_right _ (List.mem_cons_of_mem _ hafter)
    rw [hone, Nat.succ_lt_succ_iff, Nat.lt_one_iff, List.length_eq_zero_iff,
      List.filter_eq_nil_iff]
    exact forall₂_congr hblank
  rw [siblingProblems_eq_nil_iff_length]
  constructor
  · rintro h before table after hsplit htable
    exact (hlength before table after hsplit htable).1 (h table (by simp [hsplit]) htable)
  · intro h table hmem htable
    obtain ⟨before, after, hsplit⟩ := List.append_of_mem hmem
    exact (hlength before table after hsplit htable).2 (h before table after hsplit htable)

theorem checkContents_eq_nil_iff {parent : List Char} {level : List Content} :
    checkContents parent level = [] ↔ ∀ content ∈ level, checkContent parent content = [] := by
  induction level with
  | nil => simp [checkContents]
  | cons content level ih => simp [checkContents, ih]

/-- Neither the level as such nor one of its tags has a problem. -/
def IsQuiet (parent : Option (List Char)) (level : List Content) : Prop :=
  siblingProblems level = [] ∧ ∀ tag : Tag, tag.content ∈ level →
    tagProblems (parent.getD rootName.toList) tag.name tag.attributes tag.close tag.children = []

theorem IsLevel.checks_eq_nil {label level : List Content} {parent : Option (List Char)}
    (h : IsLevel label parent level) (hcheck : check label = []) :
    siblingProblems level = [] ∧ checkContents (parent.getD rootName.toList) level = [] := by
  induction h with
  | top => exact List.append_eq_nil_iff.1 hcheck
  | inside tag _ hmem ih =>
    have htag := checkContents_eq_nil_iff.1 ih.2 tag.content hmem
    simp only [Tag.content, checkContent, List.append_eq_nil_iff] at htag
    exact ⟨htag.1.2, htag.2⟩

mutual

theorem checkContent_eq_nil {label : List Content}
    (h : ∀ {parent level}, IsLevel label parent level → IsQuiet parent level) :
    ∀ (content : Content) {parent level}, IsLevel label parent level → content ∈ level →
      checkContent (parent.getD rootName.toList) content = []
  | .text _, _, _, _, _ => rfl
  | .tag name attributes close children, parent, level, hlevel, hmem => by
    let tag : Tag := ⟨name, attributes, close, children⟩
    have hinside : IsLevel label (some name.item) children := hlevel.inside tag hmem
    have htag := (h hlevel).2 tag hmem
    have hsiblings := (h hinside).1
    have hchildren := checkContents_eq_nil h children hinside (List.Subset.refl _)
    simp only [checkContent, List.append_eq_nil_iff]
    exact ⟨⟨htag, hsiblings⟩, hchildren⟩
termination_by structural content => content

theorem checkContents_eq_nil {label : List Content}
    (h : ∀ {parent level}, IsLevel label parent level → IsQuiet parent level) :
    ∀ (rest : List Content) {parent level}, IsLevel label parent level → rest ⊆ level →
      checkContents (parent.getD rootName.toList) rest = []
  | [], _, _, _, _ => rfl
  | content :: rest, parent, level, hlevel, hsubset => by
    obtain ⟨hmem, hrest⟩ := List.cons_subset.1 hsubset
    rw [checkContents, checkContent_eq_nil h content hlevel hmem,
      checkContents_eq_nil h rest hlevel hrest, List.append_nil]
termination_by structural rest => rest

end

/-- **Every level is checked.** A label has no problem exactly if none of its levels has one. -/
theorem check_eq_nil_iff {label : List Content} :
    check label = [] ↔ ∀ {parent level}, IsLevel label parent level → IsQuiet parent level := by
  constructor
  · intro hcheck parent level hlevel
    obtain ⟨hsiblings, hcontents⟩ := hlevel.checks_eq_nil hcheck
    refine ⟨hsiblings, fun tag hmem => ?_⟩
    have htag := checkContents_eq_nil_iff.1 hcontents tag.content hmem
    simp only [Tag.content, checkContent, List.append_eq_nil_iff] at htag
    exact htag.1.1
  · intro h
    refine List.append_eq_nil_iff.2 ⟨(h .top).1, ?_⟩
    exact checkContents_eq_nil h label .top (List.Subset.refl _)

/-! ## Text of a label -/

theorem parts_subset_levelParts {content : Content} {level : List Content} (h : content ∈ level) :
    content.parts ⊆ levelParts level := by
  obtain ⟨before, after, rfl⟩ := List.append_of_mem h
  intro part hpart
  simp [levelParts, hpart]

/-- The parts of a level are parts of the label. -/
theorem IsLevel.parts_subset {label level : List Content} {parent : Option (List Char)}
    (h : IsLevel label parent level) : levelParts level ⊆ levelParts label := by
  induction h with
  | top => exact List.Subset.refl _
  | inside tag _ hmem ih =>
    refine List.Subset.trans (fun part hpart => ?_)
      (List.Subset.trans (parts_subset_levelParts hmem) ih)
    obtain ⟨name, attributes, close, children⟩ := tag
    cases close <;> simp [Tag.content, Content.parts, hpart]

/-- Text of a label that was read is trimmed. -/
theorem IsLevel.exists_trim {cs : List Char} {label level : List Content}
    {parent : Option (List Char)} (hlevel : IsLevel label parent level)
    (hread : read cs = .ok label) {run : Located (List Char)} (hrun : .text run ∈ level) :
    ∃ ds, run.item = trim ds := by
  have hclosed : (lex cs).unclosed = [] := by
    simp only [read] at hread
    split at hread
    · cases hread
    · assumption
  obtain ⟨tokens, last, hlex, hlast, htokens⟩ := exists_tokens_lexFrom .content 0 cs
  have hrunTokens := (read_eq_ok_iff hclosed hlex hlast).1 hread
  obtain ⟨hparts, -⟩ := of_run_eq_ok htokens hrunTokens
  have hpart : (⟨.text, some run⟩ : Part) ∈ levelParts label :=
    hlevel.parts_subset (parts_subset_levelParts hrun (by simp [Content.parts]))
  rw [hparts] at hpart
  obtain ⟨token, -, htoken⟩ := List.mem_map.1 hpart
  obtain ⟨-, rfl⟩ := Token.of_part_eq_text htoken
  exact ⟨token.text, rfl⟩

/-- Content of a label that was read is solid unless it is blank. -/
theorem IsLevel.isSolid_eq_false_iff {cs : List Char} {label level : List Content}
    {parent : Option (List Char)} (hlevel : IsLevel label parent level)
    (hread : read cs = .ok label) {content : Content} (hmem : content ∈ level) :
    content.isSolid = false ↔ content.IsBlank := by
  cases content with
  | text run =>
    obtain ⟨ds, hds⟩ := hlevel.exists_trim hread hmem
    rw [Content.isSolid, Content.IsBlank, hds, isBlankText_trim, Bool.not_eq_false']
  | tag => exact iff_of_false Bool.noConfusion id

/-! ## Labels -/

theorem IsLevel.isOneOf_knownTags {label level : List Content} {parent : Option (List Char)}
    (h : IsLevel label parent level)
    (hknown : ∀ {parent level}, IsLevel label parent level →
      ∀ tag : Tag, tag.content ∈ level → IsOneOf knownTags tag.name.item) :
    ∀ outer ∈ parent, IsOneOf knownTags outer := by
  cases h with
  | top => exact nofun
  | inside tag hlevel hmem =>
    intro outer houter
    cases houter
    exact hknown hlevel tag hmem

/-- A label that was read has no problem exactly if it keeps to the rules. -/
theorem check_eq_nil_iff_isSound {cs : List Char} {label : List Content}
    (hread : read cs = .ok label) : check label = [] ↔ IsSound label := by
  have hchildren {parent level} (hlevel : IsLevel label parent level) (tag : Tag)
      (hmem : tag.content ∈ level) :
      ∀ content ∈ tag.children, content.isSolid = false ↔ content.IsBlank :=
    fun _ => (hlevel.inside tag hmem).isSolid_eq_false_iff hread
  rw [check_eq_nil_iff]
  constructor
  · intro h
    have hknown {parent level} (hlevel : IsLevel label parent level) (tag : Tag)
        (hmem : tag.content ∈ level) : IsOneOf knownTags tag.name.item :=
      isOneOf_knownTags_of_tagProblems ((h hlevel).2 tag hmem)
    refine ⟨fun hlevel tag hmem => ?_, fun hlevel => ?_⟩
    · exact (tagProblems_eq_nil_iff (hlevel.isOneOf_knownTags hknown)
        (hchildren hlevel tag hmem)).1 ((h hlevel).2 tag hmem)
    · exact (siblingProblems_eq_nil_iff fun _ => hlevel.isSolid_eq_false_iff hread).1 (h hlevel).1
  · intro h parent level hlevel
    have hknown {parent level} (hlevel : IsLevel label parent level) (tag : Tag)
        (hmem : tag.content ∈ level) : IsOneOf knownTags tag.name.item :=
      (h.tags hlevel tag hmem).known
    refine ⟨?_, fun tag hmem => ?_⟩
    · exact (siblingProblems_eq_nil_iff fun _ => hlevel.isSolid_eq_false_iff hread).2
        (h.tables hlevel)
    · exact (tagProblems_eq_nil_iff (hlevel.isOneOf_knownTags hknown)
        (hchildren hlevel tag hmem)).2 (h.tags hlevel tag hmem)

end DotAttributes.Markup

namespace DotAttributes

/-- **The content model.** A markup label that can be read has no finding exactly if it keeps to
the rules on every level. -/
theorem checkMarkup_eq_nil_iff {a : Attribute} {label : List Markup.Content}
    (hread : Markup.read a.chars = .ok label) :
    checkMarkup a = [] ↔ Markup.IsSound label := by
  rw [checkMarkup, hread]
  simp only [Attribute.findings, List.map_eq_nil_iff]
  exact Markup.check_eq_nil_iff_isSound hread

/-- The label of a table with something in its only cell. -/
def cellLabel (inner : String) : Attribute :=
  .writtenAt 0 .markup "label" s!"<TABLE><TR><TD BORDER=\"8\">{inner}</td></tr></table>"

/-- A table fills a cell if nothing but blanks stands beside it. -/
theorem checkMarkup_eq_nil_iff_tableInCell :
    (∃ label, Markup.read (cellLabel " <table></table> ").chars = .ok label ∧
      checkMarkup (cellLabel " <table></table> ") = [] ∧ Markup.IsSound label) ∧
    ∃ label, Markup.read (cellLabel "x<table></table> ").chars = .ok label ∧
      checkMarkup (cellLabel "x<table></table> ") ≠ [] ∧ ¬ Markup.IsSound label := by
  constructor
  · have hcheck : checkMarkup (cellLabel " <table></table> ") = [] := by decide +kernel
    have hread : (Markup.read (cellLabel " <table></table> ").chars).toOption.isSome := by
      decide +kernel
    cases hlabel : Markup.read (cellLabel " <table></table> ").chars with
    | error fault => simp [hlabel, Except.toOption] at hread
    | ok label => exact ⟨label, rfl, hcheck, (checkMarkup_eq_nil_iff hlabel).1 hcheck⟩
  · have hcheck : checkMarkup (cellLabel "x<table></table> ") ≠ [] := by decide +kernel
    have hread : (Markup.read (cellLabel "x<table></table> ").chars).toOption.isSome := by
      decide +kernel
    cases hlabel : Markup.read (cellLabel "x<table></table> ").chars with
    | error fault => simp [hlabel, Except.toOption] at hread
    | ok label => exact ⟨label, rfl, hcheck, fun h => hcheck ((checkMarkup_eq_nil_iff hlabel).2 h)⟩

end DotAttributes
