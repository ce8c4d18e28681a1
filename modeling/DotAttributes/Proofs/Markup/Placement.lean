import DotAttributes.Proofs.Distinct
import DotAttributes.Proofs.Markup.ContentModel
import DotAttributes.Proofs.Markup.Distinct

/-!
# Misplaced tags

The rules of some tags list the parents in which the tag may stand; the name `ROOT` in such a list
stands for the top of the label. A tag in another parent is reported once, at its name
(`filter_isMisplaced_checkMarkup`). The checks know the top of the label by its name only, so a tag
that is called like it, in any case, counts as the top for the tags in it.

A finding at the name of a tag is about this tag and no other, because no place belongs to two parts
of a label. So the problems of a label at a place are those of the level that the place is on
(`IsLevel.filter_check`), and on it those of one piece of content (`filter_checkContents`).
-/

namespace DotAttributes.Markup

open Text

/-! ## Parents -/

/-- A rule lists the parent of a level: the top of the label, or the name of the tag around it. -/
def TagRule.Allows (rule : TagRule) : Option (List Char) → Prop
  | none => rootName ∈ rule.parents
  | some outer => IsOneOf (rule.parents.filter (· != rootName)) outer

/-- A rule lists the top of the label, and the tag around a level is called like the top. -/
def TagRule.TakesForTop (rule : TagRule) (parent : Option (List Char)) : Prop :=
  rootName ∈ rule.parents ∧ ∃ outer ∈ parent, IsOneOf [rootName] outer

/-- Whether a problem is that a tag stands in the wrong parent. -/
def Problem.isMisplaced : Problem → Bool
  | misplaced .. => true
  | unsupported _ | selfClosing _ | misclosed .. | textInside _ | unknownAttribute .. | badValue ..
  | siblings => false

/-- The checks compare the parent with the words of the rule, the top of the label by its name. -/
theorem isOneOf_parents_iff {rule : TagRule} (hrule : rule ∈ tagRules)
    (parent : Option (List Char)) :
    IsOneOf rule.parents (parent.getD rootName.toList) ↔
      rule.Allows parent ∨ rule.TakesForTop parent := by
  have hroot : ∀ rule ∈ tagRules, ∀ word ∈ rule.parents,
      sameIgnoringCase word.toList rootName.toList = true → word = rootName := by
    decide +kernel
  cases parent with
  | none =>
    simp only [Option.getD_none, TagRule.Allows, TagRule.TakesForTop, Option.not_mem_none,
      false_and, exists_false, and_false, or_false]
    constructor
    · intro h
      obtain ⟨word, hword, hsame⟩ := containsIgnoringCase_iff.1 h
      exact hroot rule hrule word hword hsame ▸ hword
    · exact fun h => containsIgnoringCase_iff.2 ⟨rootName, h, sameIgnoringCase_iff.2 rfl⟩
  | some outer =>
    simp only [Option.getD_some, TagRule.Allows, TagRule.TakesForTop, Option.mem_some_iff,
      exists_eq_left', IsOneOf, containsIgnoringCase_iff, List.mem_filter, bne_iff_ne,
      List.mem_singleton, exists_eq_left]
    constructor
    · rintro ⟨word, hword, hsame⟩
      by_cases hname : word = rootName
      · exact Or.inr ⟨hname ▸ hword, hname ▸ hsame⟩
      · exact Or.inl ⟨word, ⟨hword, hname⟩, hsame⟩
    · rintro (⟨word, ⟨hword, -⟩, hsame⟩ | ⟨hword, hsame⟩)
      · exact ⟨word, hword, hsame⟩
      · exact ⟨rootName, hword, hsame⟩

/-! ## Problems at a place -/

section

variable (place : Span)

/-- Whether a problem is that a tag at a place stands in the wrong parent. -/
def isMisplacedAt (p : Located Problem) : Bool := p.item.isMisplaced && p.span == place

variable {place}

/-- Neighbours are not a matter of parents. -/
theorem filter_siblingProblems (level : List Content) :
    (siblingProblems level).filter (isMisplacedAt place) = [] := by
  refine List.filter_eq_nil_iff.2 fun p hp => ?_
  rw [isMisplacedAt, eq_siblings_of_mem_siblingProblems hp]
  exact Bool.false_ne_true

-- By recursion on the tree: every problem of content is at a part of it.
mutual

theorem span_mem_of_mem_checkContent {p : Located Problem} : ∀ (content : Content) {parent},
    p ∈ checkContent parent content → p.span ∈ partSpans content.parts
  | .text _, _, h => by
    rw [checkContent] at h
    cases h
  | .tag name attributes close children, parent, h => by
    rw [(perm_partSpans_tag name attributes close children).mem_iff]
    rw [checkContent, List.append_assoc] at h
    rcases List.mem_append.1 h with htag | hinside
    · exact List.mem_append_left _ (span_of_mem_tagProblems htag)
    · refine List.mem_append_right _ ?_
      rcases List.mem_append.1 hinside with hsiblings | hchildren
      · exact sublist_places.subset
          (sublist_siblingProblems.subset (List.mem_map_of_mem hsiblings))
      · exact span_mem_of_mem_checkContents children hchildren
termination_by structural content => content

theorem span_mem_of_mem_checkContents {p : Located Problem} : ∀ (level : List Content) {parent},
    p ∈ checkContents parent level → p.span ∈ partSpans (levelParts level)
  | [], _, h => by
    rw [checkContents] at h
    cases h
  | content :: rest, _, h => by
    rw [checkContents] at h
    rw [levelParts, partSpans_append]
    rcases List.mem_append.1 h with hcontent | hrest
    · exact List.mem_append_left _ (span_mem_of_mem_checkContent content hcontent)
    · exact List.mem_append_right _ (span_mem_of_mem_checkContents rest hrest)
termination_by structural level => level

end

/-- There is no problem at a place that is not on the level. -/
theorem filter_checkContents_eq_nil {level : List Content} (parent : List Char)
    (h : place ∉ partSpans (levelParts level)) :
    (checkContents parent level).filter (isMisplacedAt place) = [] := by
  refine List.filter_eq_nil_iff.2 fun p hp hplace => ?_
  rw [isMisplacedAt, Bool.and_eq_true, beq_iff_eq] at hplace
  exact h (hplace.2 ▸ span_mem_of_mem_checkContents level hp)

variable {level : List Content} (hspans : (partSpans (levelParts level)).Nodup)

include hspans

/-- The problems of a level at a part of one piece of content are those of that piece. -/
theorem filter_checkContents {content : Content} (hcontent : content ∈ level)
    (hplace : place ∈ partSpans content.parts) (parent : List Char) :
    (checkContents parent level).filter (isMisplacedAt place) =
      (checkContent parent content).filter (isMisplacedAt place) := by
  obtain ⟨before, after, rfl⟩ := List.append_of_mem hcontent
  rw [levelParts_append, levelParts, partSpans_append, partSpans_append, List.nodup_append,
    List.nodup_append] at hspans
  obtain ⟨-, ⟨-, -, hafter⟩, hbefore⟩ := hspans
  have hfront : place ∉ partSpans (levelParts before) := fun h =>
    hbefore place h place (List.mem_append_left _ hplace) rfl
  have hback : place ∉ partSpans (levelParts after) := fun h => hafter place hplace place h rfl
  rw [checkContents_eq_flatMap, List.flatMap_append, List.flatMap_cons,
    ← checkContents_eq_flatMap, ← checkContents_eq_flatMap, List.filter_append,
    List.filter_append, filter_checkContents_eq_nil parent hfront,
    filter_checkContents_eq_nil parent hback, List.nil_append, List.append_nil]

/-- The places of a tag and of its content are different ones. -/
theorem nodup_tag {tag : Tag} (htag : tag.content ∈ level) :
    (tagSpans tag.name tag.attributes tag.close ++ partSpans (levelParts tag.children)).Nodup := by
  rw [partSpans_levelParts, List.nodup_flatMap] at hspans
  have hnodup := hspans.1 tag.content htag
  rwa [Tag.content, (perm_partSpans_tag ..).nodup_iff] at hnodup

end

/-! ## Levels and tags -/

section

variable {label level : List Content} {parent : Option (List Char)}
  (hspans : (partSpans (levelParts label)).Nodup)

include hspans

/-- On every level of a label the parts have places of their own. -/
theorem IsLevel.nodup_partSpans (h : IsLevel label parent level) :
    (partSpans (levelParts level)).Nodup := by
  induction h with
  | top => exact hspans
  | inside tag _ hmem ih => exact (List.nodup_append.1 (nodup_tag ih hmem)).2.1

/-- The problems of a label at a place on one of its levels are those of that level. -/
theorem IsLevel.filter_check (h : IsLevel label parent level) :
    ∀ place ∈ partSpans (levelParts level), (check label).filter (isMisplacedAt place) =
      (checkContents (parent.getD rootName.toList) level).filter (isMisplacedAt place) := by
  induction h with
  | top =>
    intro place _
    rw [check, List.filter_append, filter_siblingProblems, List.nil_append]
    rfl
  | @inside outer level tag hlevel hmem ih =>
    intro place hplace
    have houter := hlevel.nodup_partSpans hspans
    have hpart : place ∈ partSpans tag.content.parts := by
      rw [Tag.content, (perm_partSpans_tag ..).mem_iff]
      exact List.mem_append_right _ hplace
    have hlevelPart : place ∈ partSpans (levelParts level) := by
      rw [partSpans_levelParts]
      exact List.mem_flatMap.2 ⟨tag.content, hmem, hpart⟩
    -- the tag itself has its problems at its own places
    have htag : (tagProblems (outer.getD rootName.toList) tag.name tag.attributes tag.close
        tag.children).filter (isMisplacedAt place) = [] := by
      refine List.filter_eq_nil_iff.2 fun p hp hat => ?_
      rw [isMisplacedAt, Bool.and_eq_true, beq_iff_eq] at hat
      have hown := span_of_mem_tagProblems hp
      rw [hat.2] at hown
      exact (List.nodup_append.1 (nodup_tag houter hmem)).2.2 place hown place hplace rfl
    rw [ih place hlevelPart, filter_checkContents houter hmem hpart, Tag.content, checkContent,
      List.filter_append, List.filter_append, htag, filter_siblingProblems]
    rfl

end

/-- At the name of a tag, the only problem about a parent is that of the tag. -/
theorem filter_tagProblems {tag : Tag} {rule : TagRule}
    (hrule : TagRule.find? tag.name.item = some rule) (parent : List Char) :
    (tagProblems parent tag.name tag.attributes tag.close tag.children).filter
        (isMisplacedAt tag.name.span) = parentProblems rule parent tag.name := by
  have hclosing : (selfClosingProblems rule tag.name tag.close).filter
      (isMisplacedAt tag.name.span) = [] := by
    unfold selfClosingProblems
    split <;> rfl
  have hclose : (closeProblems tag.name tag.close).filter (isMisplacedAt tag.name.span) = [] := by
    unfold closeProblems
    split
    · rfl
    · split <;> rfl
  have hattributes : (tag.attributes.flatMap (attributeProblems rule tag.name.item)).filter
      (isMisplacedAt tag.name.span) = [] := by
    rw [List.filter_flatMap, List.flatMap_eq_nil_iff]
    intro attr _
    simp only [attributeProblems]
    split
    · rfl
    · split <;> rfl
  have htext : (textProblems rule tag.name tag.children).filter
      (isMisplacedAt tag.name.span) = [] := by
    unfold textProblems
    split <;> rfl
  have hparent : (parentProblems rule parent tag.name).filter (isMisplacedAt tag.name.span) =
      parentProblems rule parent tag.name := by
    have hplace (p : Problem) : isMisplacedAt tag.name.span ⟨p, tag.name.span⟩ =
        p.isMisplaced := by
      simp [isMisplacedAt]
    unfold parentProblems
    split
    · rfl
    · simp [hplace, Problem.isMisplaced]
  rw [tagProblems, hrule]
  simp only [List.filter_append, hclosing, hclose, hattributes, htext, hparent, List.nil_append,
    List.append_nil]

/-- **Parents.** At the name of a tag of a label that was read, the problems about parents are those
of the tag in its own parent. -/
theorem filter_isMisplacedAt_check {cs : List Char} {label level : List Content}
    {parent : Option (List Char)} {tag : Tag} {rule : TagRule} (hread : read cs = .ok label)
    (hlevel : IsLevel label parent level) (htag : tag.content ∈ level)
    (hrule : TagRule.find? tag.name.item = some rule) :
    (check label).filter (isMisplacedAt tag.name.span) =
      parentProblems rule (parent.getD rootName.toList) tag.name := by
  have hspans := hlevel.nodup_partSpans (nodup_partSpans_of_read hread)
  have hname : tag.name.span ∈ partSpans tag.content.parts := place_mem_partSpans tag.content
  have hplace : tag.name.span ∈ partSpans (levelParts level) := by
    rw [partSpans_levelParts]
    exact List.mem_flatMap.2 ⟨tag.content, htag, hname⟩
  have hchildren : tag.name.span ∉ partSpans (levelParts tag.children) := fun h =>
    (List.nodup_append.1 (nodup_tag hspans htag)).2.2 _ List.mem_cons_self _ h rfl
  rw [hlevel.filter_check (nodup_partSpans_of_read hread) _ hplace,
    filter_checkContents hspans htag hname, Tag.content, checkContent, List.filter_append,
    List.filter_append, filter_tagProblems hrule, filter_siblingProblems,
    filter_checkContents_eq_nil _ hchildren, List.append_nil, List.append_nil]

end DotAttributes.Markup

namespace DotAttributes

open Markup

/-- Whether a finding is that a tag stands in the wrong parent. -/
def Finding.isMisplaced : Finding → Bool
  | value _ _ (.markup problem) => problem.isMisplaced
  | value .. | operator _ => false

/-- **Misplaced tags.** For a tag whose rule lists parents, nothing is reported at its name about
its parent if the rule lists the parent, or if it lists the top of the label and the parent is a tag
called like the top. Otherwise it is reported once that the tag is misplaced. -/
theorem filter_isMisplaced_checkMarkup {a : Attribute} {label level : List Content}
    {parent : Option (List Char)} {tag : Tag} {rule : TagRule}
    (hread : Markup.read a.chars = .ok label) (hlevel : IsLevel label parent level)
    (htag : tag.content ∈ level) (hrule : TagRule.find? tag.name.item = some rule)
    (hparents : rule.parents ≠ []) :
    let place := a.absolute tag.name.span
    let found := (checkMarkup a).filter fun f => f.isMisplaced && f.span == place
    (rule.Allows parent ∨ rule.TakesForTop parent → found = []) ∧
      (¬ (rule.Allows parent ∨ rule.TakesForTop parent) → found = [.value a place
        (.markup (.misplaced tag.name.item (parent.getD rootName.toList) rule.parents))]) := by
  intro place found
  have hfound : found = a.findings .markup
      (parentProblems rule (parent.getD rootName.toList) tag.name) := by
    have hplace (span : Span) : (a.absolute span == place) = (span == tag.name.span) := by
      rw [Bool.eq_iff_iff, beq_iff_eq, beq_iff_eq]
      exact ⟨absolute_inj, congrArg a.absolute⟩
    rw [← filter_isMisplacedAt_check hread hlevel htag hrule]
    simp only [found, checkMarkup, hread, Attribute.findings, List.filter_map]
    congr 2
    funext p
    exact congrArg (p.item.isMisplaced && ·) (hplace p.span)
  have hlisted : Text.containsIgnoringCase rule.parents (parent.getD rootName.toList) = true ↔ _ :=
    isOneOf_parents_iff (TagRule.find?_eq_some_iff.1 hrule).1 parent
  rw [hfound, parentProblems, List.isEmpty_eq_false_iff.2 hparents, Bool.false_or, ← hlisted]
  constructor
  · intro h
    rw [if_pos h]
    rfl
  · intro h
    rw [if_neg h]
    rfl

/-- The rule of tables. -/
def tableRule : TagRule :=
  ⟨"TABLE", false, false, [rootName, "TD", "FONT", "B", "I", "U", "O"], tableAttributes⟩

/-- A table in a cell at the top of a label. The cell is misplaced, the table is not. -/
def tableInCell : Attribute := .writtenAt 0 .markup "label" "<td><table></table></td>"

/-- Nothing is reported about the parent of the table, one finding about that of the cell. -/
theorem filter_isMisplaced_checkMarkup_tableInCell :
    ∃ table cell : Tag, Markup.read tableInCell.chars = .ok [cell.content] ∧
      table.content ∈ cell.children ∧
      ((checkMarkup tableInCell).filter fun f =>
        f.isMisplaced && f.span == tableInCell.absolute table.name.span) = [] ∧
      ((checkMarkup tableInCell).filter fun f =>
        f.isMisplaced && f.span == tableInCell.absolute cell.name.span) =
          [.value tableInCell ⟨2, 4⟩
            (.markup (.misplaced "td".toList rootName.toList ["TR"]))] := by
  let table : Tag := ⟨⟨"table".toList, ⟨5, 10⟩⟩, [], some ⟨"table".toList, ⟨13, 18⟩⟩, []⟩
  let cell : Tag := ⟨⟨"td".toList, ⟨1, 3⟩⟩, [], some ⟨"td".toList, ⟨21, 23⟩⟩, [table.content]⟩
  have hread : Markup.read tableInCell.chars = .ok [cell.content] := by with_unfolding_all rfl
  have hcell : cell.content ∈ [cell.content] := List.mem_singleton_self _
  have htable : table.content ∈ cell.children := List.mem_singleton_self _
  have hcellRule : TagRule.find? cell.name.item =
      some ⟨"TD", false, true, ["TR"], cellAttributes⟩ := by decide +kernel
  have htableRule : TagRule.find? table.name.item = some tableRule := by decide +kernel
  obtain ⟨-, hreported⟩ :=
    filter_isMisplaced_checkMarkup hread .top hcell hcellRule (List.cons_ne_nil _ _)
  obtain ⟨hallowed, -⟩ := filter_isMisplaced_checkMarkup hread (.inside cell .top hcell) htable
    htableRule (List.cons_ne_nil _ _)
  refine ⟨table, cell, hread, htable, hallowed (Or.inl ?_), hreported ?_⟩
  · show Text.containsIgnoringCase (tableRule.parents.filter (· != rootName)) "td".toList = true
    decide +kernel
  · simp [TagRule.Allows, TagRule.TakesForTop, rootName]

/-- A table in a tag that is called like the top of a label. -/
def tableInRoot : Attribute := .writtenAt 10 .markup "label" "<root><table></table></root>"

/-- The tag is not among the parents of the table, but nothing is reported about it. -/
theorem filter_isMisplaced_checkMarkup_tableInRoot :
    ∃ table root : Tag, Markup.read tableInRoot.chars = .ok [root.content] ∧
      IsLevel [root.content] (some root.name.item) root.children ∧
      table.content ∈ root.children ∧ TagRule.find? table.name.item = some tableRule ∧
      tableRule.parents ≠ [] ∧ ¬ tableRule.Allows (some root.name.item) ∧
      (checkMarkup tableInRoot).filter Finding.isMisplaced = [] := by
  let table : Tag := ⟨⟨"table".toList, ⟨7, 12⟩⟩, [], some ⟨"table".toList, ⟨15, 20⟩⟩, []⟩
  let root : Tag :=
    ⟨⟨"root".toList, ⟨1, 5⟩⟩, [], some ⟨"root".toList, ⟨23, 27⟩⟩, [table.content]⟩
  have hread : Markup.read tableInRoot.chars = .ok [root.content] := by with_unfolding_all rfl
  have hroot : ¬ tableRule.Allows (some root.name.item) := by
    show ¬ Text.containsIgnoringCase (tableRule.parents.filter (· != rootName)) "root".toList = true
    decide +kernel
  exact ⟨table, root, hread, .inside root .top (List.mem_singleton_self _),
    List.mem_singleton_self _, by decide +kernel, List.cons_ne_nil _ _, hroot, by decide +kernel⟩

end DotAttributes
