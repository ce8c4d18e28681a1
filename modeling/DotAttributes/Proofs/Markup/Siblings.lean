import DotAttributes.Proofs.Findings
import DotAttributes.Proofs.Markup.Placement

/-!
# Tables that are not alone

A table has to be alone on its level but for blanks. Where it is not, everything that is not blank
on the level is reported, so never a single piece of content. The levels of a label are those of
`IsLevel`; `levels` lists them in the order in which they are checked, each tag's own one where the
tag stands. What is found of neighbours in a label is what is found on its levels, one after the
other (`filter_siblings_checkMarkup`).
-/

namespace DotAttributes.Markup

open Text

/-! ## The levels of a label -/

mutual

/-- The levels in a piece of content, each in front of those in it. -/
def Content.levels : Content → List (List Content)
  | .text _ => []
  | .tag _ _ _ children => children :: levelsInside children

/-- The levels in the content of a level. -/
def levelsInside : List Content → List (List Content)
  | [] => []
  | content :: rest => content.levels ++ levelsInside rest

end

/-- The levels of a label: its top, and the levels in it. -/
def levels (label : List Content) : List (List Content) := label :: levelsInside label

theorem levelsInside_eq_flatMap (level : List Content) :
    levelsInside level = level.flatMap Content.levels := by
  induction level with
  | nil => rw [levelsInside, List.flatMap_nil]
  | cons content rest ih => rw [levelsInside, ih, List.flatMap_cons]

theorem mem_levelsInside {level inner : List Content} :
    inner ∈ levelsInside level ↔ ∃ content ∈ level, inner ∈ content.levels := by
  rw [levelsInside_eq_flatMap, List.mem_flatMap]

-- By recursion on the tree: the levels in a level of it are levels of it.
mutual

theorem levels_subset_of_mem_levels : ∀ (content : Content), ∀ level ∈ content.levels,
    levelsInside level ⊆ content.levels
  | .text _, _, h => by
    rw [Content.levels] at h
    cases h
  | .tag _ _ _ children, level, h => by
    rw [Content.levels] at h ⊢
    rcases List.mem_cons.1 h with rfl | h
    · exact List.subset_cons_self _ _
    · exact List.Subset.trans (levelsInside_subset_of_mem children level h)
        (List.subset_cons_self _ _)
termination_by structural content => content

theorem levelsInside_subset_of_mem : ∀ (outer : List Content), ∀ level ∈ levelsInside outer,
    levelsInside level ⊆ levelsInside outer
  | [], _, h => by
    rw [levelsInside] at h
    cases h
  | content :: rest, level, h => by
    rw [levelsInside] at h ⊢
    rcases List.mem_append.1 h with h | h
    · exact List.subset_append_of_subset_left _ (levels_subset_of_mem_levels content level h)
    · exact List.subset_append_of_subset_right _ (levelsInside_subset_of_mem rest level h)
termination_by structural outer => outer

end

-- By recursion on the tree: what is listed is a level.
mutual

theorem exists_isLevel_of_mem_levels {label : List Content} : ∀ (content : Content) {parent outer},
    IsLevel label parent outer → content ∈ outer →
      ∀ level ∈ content.levels, ∃ parent, IsLevel label parent level
  | .text _, _, _, _, _, _, h => by
    rw [Content.levels] at h
    cases h
  | .tag name attributes close children, _, _, houter, hmem, level, h => by
    let tag : Tag := ⟨name, attributes, close, children⟩
    have hinside : IsLevel label (some name.item) children := houter.inside tag hmem
    rw [Content.levels] at h
    rcases List.mem_cons.1 h with rfl | h
    · exact ⟨_, hinside⟩
    · exact exists_isLevel_of_mem_levelsInside children hinside (List.Subset.refl _) level h
termination_by structural content => content

theorem exists_isLevel_of_mem_levelsInside {label : List Content} :
    ∀ (rest : List Content) {parent outer}, IsLevel label parent outer → rest ⊆ outer →
      ∀ level ∈ levelsInside rest, ∃ parent, IsLevel label parent level
  | [], _, _, _, _, _, h => by
    rw [levelsInside] at h
    cases h
  | content :: rest, _, _, houter, hsubset, level, h => by
    obtain ⟨hmem, hrest⟩ := List.cons_subset.1 hsubset
    rw [levelsInside] at h
    rcases List.mem_append.1 h with h | h
    · exact exists_isLevel_of_mem_levels content houter hmem level h
    · exact exists_isLevel_of_mem_levelsInside rest houter hrest level h
termination_by structural rest => rest

end

/-- The levels that are listed are those of the label. -/
theorem mem_levels_iff {label level : List Content} :
    level ∈ levels label ↔ ∃ parent, IsLevel label parent level := by
  constructor
  · intro h
    rcases List.mem_cons.1 h with rfl | h
    · exact ⟨_, .top⟩
    · exact exists_isLevel_of_mem_levelsInside label .top (List.Subset.refl _) level h
  · rintro ⟨parent, h⟩
    induction h with
    | top => exact List.mem_cons_self
    | @inside outer level tag _ hmem ih =>
      have htag : tag.children ∈ levelsInside level :=
        mem_levelsInside.2 ⟨tag.content, hmem, by rw [Tag.content, Content.levels]; simp⟩
      rcases List.mem_cons.1 ih with rfl | ih
      · exact List.mem_cons_of_mem _ htag
      · exact List.mem_cons_of_mem _ (levelsInside_subset_of_mem label level ih htag)

/-! ## Neighbours -/

instance (content : Content) : Decidable content.IsBlank :=
  match content with
  | .text run => inferInstanceAs (Decidable (isBlankText run.item = true))
  | .tag .. => inferInstanceAs (Decidable False)

/-- The content of a level that is reported: if there is a table and it is not alone but for
blanks, everything that is not blank. -/
def offenders (level : List Content) : List Content :=
  if level.any Content.isTable = true ∧ 2 ≤ (level.filter fun content => ¬ content.IsBlank).length
  then level.filter fun content => ¬ content.IsBlank
  else []

/-- No piece of content is reported alone. -/
theorem length_offenders_ne_one (level : List Content) : (offenders level).length ≠ 1 := by
  unfold offenders
  split
  · omega
  · exact Nat.zero_ne_one

/-- The problems of a level are those of its offenders. -/
theorem siblingProblems_eq_map {level : List Content}
    (hlevel : ∀ content ∈ level, content.isSolid = false ↔ content.IsBlank) :
    siblingProblems level = (offenders level).map fun content => ⟨.siblings, content.place⟩ := by
  have hsolid : level.filter Content.isSolid = level.filter fun content => ¬ content.IsBlank := by
    refine List.filter_congr fun content hcontent => ?_
    rw [Bool.eq_iff_iff, decide_eq_true_eq, ← hlevel content hcontent, Bool.not_eq_false]
  have htable := any_isTable_filter_isSolid level
  rw [hsolid] at htable
  simp only [siblingProblems, hsolid, htable, Bool.and_eq_true, decide_eq_true_eq, offenders]
  split <;> rfl

theorem offenders_subset (level : List Content) : offenders level ⊆ level := by
  unfold offenders
  split
  · exact List.filter_subset_self _
  · exact List.nil_subset level

/-! ## What is found of neighbours -/

/-- Whether a problem is about neighbours. -/
def isSiblings (p : Located Problem) : Bool := p.item = .siblings

theorem filter_isSiblings_siblingProblems (level : List Content) :
    (siblingProblems level).filter isSiblings = siblingProblems level :=
  List.filter_eq_self.2 fun _ hp => decide_eq_true (eq_siblings_of_mem_siblingProblems hp)

-- By recursion on the tree: each level is checked where it is listed.
mutual

theorem filter_isSiblings_checkContent : ∀ (content : Content) (parent : List Char),
    (checkContent parent content).filter isSiblings = content.levels.flatMap siblingProblems
  | .text _, _ => by
    rw [checkContent, Content.levels]
    rfl
  | .tag name attributes close children, parent => by
    have htag : (tagProblems parent name attributes close children).filter isSiblings = [] :=
      List.filter_eq_nil_iff.2 fun _ hp h =>
        ne_siblings_of_mem_tagProblems hp (of_decide_eq_true h)
    rw [checkContent, Content.levels, List.filter_append, List.filter_append, htag,
      filter_isSiblings_siblingProblems, filter_isSiblings_checkContents children, List.nil_append,
      List.flatMap_cons]
termination_by structural content => content

theorem filter_isSiblings_checkContents : ∀ (level : List Content) (parent : List Char),
    (checkContents parent level).filter isSiblings = (levelsInside level).flatMap siblingProblems
  | [], _ => by
    rw [checkContents, levelsInside]
    rfl
  | content :: rest, parent => by
    rw [checkContents, levelsInside, List.filter_append, filter_isSiblings_checkContent content,
      filter_isSiblings_checkContents rest, List.flatMap_append]
termination_by structural level => level

end

/-- The problems about neighbours are those of the levels. -/
theorem filter_isSiblings_check (label : List Content) :
    (check label).filter isSiblings = (levels label).flatMap siblingProblems := by
  rw [check, List.filter_append, filter_isSiblings_siblingProblems,
    filter_isSiblings_checkContents, levels, List.flatMap_cons]

/-! ## Places -/

/-- The places of the content of levels, one level after the other. -/
def placesOf (levels : List (List Content)) : List Span :=
  levels.flatMap fun level => level.map Content.place

theorem placesOf_append (first last : List (List Content)) :
    placesOf (first ++ last) = placesOf first ++ placesOf last := List.flatMap_append

theorem placesOf_cons (level : List Content) (rest : List (List Content)) :
    placesOf (level :: rest) = level.map Content.place ++ placesOf rest := List.flatMap_cons

-- By recursion on the tree: content stands at the place of a part of it, levels in it at others.
mutual

theorem count_placesOf_levels_le (s : Span) : ∀ content : Content,
    (content.place :: placesOf content.levels).count s ≤ (partSpans content.parts).count s
  | .text run => by
    rw [Content.levels]
    exact Nat.le_refl _
  | .tag name attributes close children => by
    have hchildren := count_placesOf_levelsInside_le s children
    rw [(perm_partSpans_tag name attributes close children).count_eq, Content.levels, placesOf_cons]
    simp only [Content.place, tagSpans, List.cons_append, List.count_cons, List.count_append]
      at hchildren ⊢
    omega
termination_by structural content => content

theorem count_placesOf_levelsInside_le (s : Span) : ∀ level : List Content,
    (level.map Content.place ++ placesOf (levelsInside level)).count s ≤
      (partSpans (levelParts level)).count s
  | [] => by
    rw [levelsInside]
    exact Nat.zero_le _
  | content :: rest => by
    have hcontent := count_placesOf_levels_le s content
    have hrest := count_placesOf_levelsInside_le s rest
    rw [levelsInside, levelParts, partSpans_append, placesOf_append]
    simp only [List.map_cons, List.count_cons, List.count_append, List.cons_append]
      at hcontent hrest ⊢
    omega
termination_by structural level => level

end

/-- No place belongs to two pieces of content, be they on one level or on two. -/
theorem nodup_placesOf_levels {cs : List Char} {label : List Content} (h : read cs = .ok label) :
    (placesOf (levels label)).Nodup := by
  refine List.nodup_iff_count_le_one.2 fun s => ?_
  calc (placesOf (levels label)).count s ≤ (partSpans (levelParts label)).count s :=
        count_placesOf_levelsInside_le s label
    _ ≤ 1 := List.nodup_iff_count_le_one.1 (nodup_partSpans_of_read h) s

/-- What stands at the place of content: the name of a tag, or the trimmed text. -/
def Content.caption : Content → List Char
  | .text run => run.item
  | .tag name .. => name.item

theorem Content.IsPlaced.standsAt_caption {cs : List Char} {content : Content}
    (h : content.IsPlaced cs) : StandsAt 0 cs content.place content.caption := by
  cases h with
  | text hrun => exact hrun
  | tag hname => exact hname

/-- The content of every level is placed. -/
theorem IsLevel.isPlaced {cs : List Char} {label level : List Content}
    {parent : Option (List Char)} (h : IsLevel label parent level) (hread : read cs = .ok label) :
    ∀ content ∈ level, content.IsPlaced cs := by
  induction h with
  | top => exact isPlaced_of_read hread
  | inside tag _ hmem ih =>
    cases ih tag.content hmem with
    | tag _ _ _ hchildren => exact hchildren

end DotAttributes.Markup

namespace DotAttributes

open Markup Text

/-- The findings of the content of a level that is reported. -/
def siblingFindings (a : Attribute) (level : List Content) : List Finding :=
  (offenders level).map fun content => .value a (a.absolute content.place) (.markup .siblings)

/-- Whether a finding is at the place of content of a level. -/
def Finding.isOn (a : Attribute) (level : List Content) (f : Finding) : Bool :=
  level.any fun content => f.span = a.absolute content.place

section

variable {a : Attribute} {level : List Content}

/-- A finding of a level is at one of its places. -/
theorem exists_of_mem_siblingFindings {f : Finding} (h : f ∈ siblingFindings a level) :
    ∃ content ∈ level, f.span = a.absolute content.place := by
  obtain ⟨content, hcontent, rfl⟩ := List.mem_map.1 h
  exact ⟨content, offenders_subset level hcontent, rfl⟩

/-- Findings of other levels are not at the places of a level. -/
theorem filter_isOn_eq_nil {others : List (List Content)}
    (h : ∀ s ∈ placesOf others, s ∉ level.map Content.place) :
    (others.flatMap (siblingFindings a)).filter (Finding.isOn a level) = [] := by
  refine List.filter_eq_nil_iff.2 fun f hf hon => ?_
  obtain ⟨other, hother, hf⟩ := List.mem_flatMap.1 hf
  obtain ⟨content, hcontent, hspan⟩ := exists_of_mem_siblingFindings hf
  obtain ⟨here, hhere, heq⟩ := List.any_eq_true.1 hon
  have hplace : here.place = content.place :=
    absolute_inj ((of_decide_eq_true heq).symm.trans hspan)
  refine h content.place (List.mem_flatMap.2 ⟨other, hother, List.mem_map_of_mem hcontent⟩) ?_
  rw [← hplace]
  exact List.mem_map_of_mem hhere

/-- On a level of a label its own findings are found, and no others. -/
theorem filter_isOn_siblingFindings {label : List Content} (hlevel : level ∈ levels label)
    (hplaces : (placesOf (levels label)).Nodup) :
    ((levels label).flatMap (siblingFindings a)).filter (Finding.isOn a level) =
      siblingFindings a level := by
  obtain ⟨before, after, hsplit⟩ := List.append_of_mem hlevel
  rw [hsplit, placesOf_append, placesOf_cons, List.nodup_append, List.nodup_append] at hplaces
  obtain ⟨-, ⟨-, -, hafter⟩, hbefore⟩ := hplaces
  have hself : (siblingFindings a level).filter (Finding.isOn a level) =
      siblingFindings a level := by
    refine List.filter_eq_self.2 fun f hf => List.any_eq_true.2 ?_
    obtain ⟨content, hcontent, hspan⟩ := exists_of_mem_siblingFindings hf
    exact ⟨content, hcontent, decide_eq_true hspan⟩
  have hfront : (before.flatMap (siblingFindings a)).filter (Finding.isOn a level) = [] :=
    filter_isOn_eq_nil fun s hs hhere => hbefore s hs s (List.mem_append_left _ hhere) rfl
  have hback : (after.flatMap (siblingFindings a)).filter (Finding.isOn a level) = [] :=
    filter_isOn_eq_nil fun s hs hhere => hafter s hhere s hs rfl
  rw [hsplit, List.flatMap_append, List.flatMap_cons, List.filter_append, List.filter_append, hself,
    hfront, hback, List.nil_append, List.append_nil]

end

/-- **Neighbours of tables.** What is found of neighbours in a label is, level by level, everything
that is not blank on a level with a table that is not alone. On each level, wherever it is, only
that is found, so never one thing alone; and it is found where it stands. -/
theorem filter_siblings_checkMarkup {a : Attribute} {label : List Content}
    (hread : Markup.read a.chars = .ok label) :
    let found := (checkMarkup a).filter (·.diagnostic.hasKind .siblingsInvalid)
    found = (levels label).flatMap (siblingFindings a) ∧
      (∀ level, level ∈ levels label ↔ ∃ parent, IsLevel label parent level) ∧
      ∀ level ∈ levels label, found.filter (Finding.isOn a level) = siblingFindings a level ∧
        (siblingFindings a level).length ≠ 1 ∧
        ∀ content ∈ level, slice? a.chars content.place = some content.caption := by
  intro found
  have hproblems : (levels label).flatMap siblingProblems = (levels label).flatMap fun level =>
      (offenders level).map fun content => ⟨.siblings, content.place⟩ := by
    refine List.flatMap_congr fun level hlevel => siblingProblems_eq_map fun content hcontent => ?_
    obtain ⟨parent, hlevel⟩ := mem_levels_iff.1 hlevel
    exact hlevel.isSolid_eq_false_iff hread hcontent
  have hkind : ∀ p : Located Markup.Problem,
      (Finding.value a (a.absolute p.span) (.markup p.item)).diagnostic.hasKind .siblingsInvalid =
        isSiblings p := by
    intro p
    rw [Finding.hasKind_diagnostic, isSiblings, Finding.kind, Problem.kind]
    cases p.item <;> rfl
  have hfound : found = (levels label).flatMap (siblingFindings a) := by
    simp only [found, checkMarkup, hread, Attribute.findings, List.filter_map, Function.comp_def,
      hkind, filter_isSiblings_check, hproblems, List.map_flatMap, List.map_map]
    rfl
  refine ⟨hfound, fun level => mem_levels_iff, fun level hlevel => ⟨?_, ?_, ?_⟩⟩
  · rw [hfound, filter_isOn_siblingFindings hlevel (nodup_placesOf_levels hread)]
  · rw [siblingFindings, List.length_map]
    exact length_offenders_ne_one level
  · intro content hcontent
    obtain ⟨parent, hlevel⟩ := mem_levels_iff.1 hlevel
    exact slice?_eq_some_iff.2 (hlevel.isPlaced hread content hcontent).standsAt_caption

/-- A label with a table beside a text and a tag that is not known, and another one in that tag,
behind a blank. -/
def crowdedTables : Attribute := .writtenAt 0 .markup "label" "a<table/><x> <TABLE/>é</x>"

theorem filter_siblings_checkMarkup_crowdedTables :
    (∃ label, Markup.read crowdedTables.chars = .ok label ∧ (levels label).length = 4) ∧
      ((checkMarkup crowdedTables).filter (·.diagnostic.hasKind .siblingsInvalid)).map
        Finding.span = [⟨1, 2⟩, ⟨3, 8⟩, ⟨11, 12⟩, ⟨15, 20⟩, ⟨22, 24⟩] := by
  have hread : Markup.read crowdedTables.chars = .ok [.text ⟨['a'], ⟨0, 1⟩⟩,
      .tag ⟨"table".toList, ⟨2, 7⟩⟩ [] none [],
      .tag ⟨['x'], ⟨10, 11⟩⟩ [] (some ⟨['x'], ⟨25, 26⟩⟩) [.text ⟨[], ⟨13, 13⟩⟩,
        .tag ⟨"TABLE".toList, ⟨14, 19⟩⟩ [] none [], .text ⟨['é'], ⟨21, 23⟩⟩]] := by
    with_unfolding_all rfl
  refine ⟨⟨_, hread, rfl⟩, ?_⟩
  rw [(filter_siblings_checkMarkup hread).1]
  decide +kernel

end DotAttributes
