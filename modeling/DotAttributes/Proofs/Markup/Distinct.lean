import DotAttributes.Finding
import DotAttributes.Proofs.Markup.Spans
import Mathlib.Data.List.Nodup
import Mathlib.Data.List.Pairwise

/-!
# The problems of a markup label are distinct

What a tree keeps of its tokens stands at places that follow each other (`ascending_of_read`), so
no place belongs to two parts of the tree. A problem is reported at the place of a part, and two
problems at the same place differ in their kind or in their wording: a tag is reported at its
name for at most three reasons, each of which has words of its own (`nodup_tagProblems`), and
once more for its neighbours. By induction on the tree no problem of a label is found twice
(`nodup_check`).
-/

namespace DotAttributes.Markup

open Text

/-! ## The places in a tree -/

/-- The places of names, values and texts among parts. -/
def partSpans (parts : List Part) : List Span :=
  parts.filterMap fun part => part.data.map Located.span

@[simp] theorem partSpans_append (parts rest : List Part) :
    partSpans (parts ++ rest) = partSpans parts ++ partSpans rest :=
  List.filterMap_append

theorem partSpans_levelParts (level : List Content) :
    partSpans (levelParts level) = level.flatMap fun content => partSpans content.parts := by
  induction level with
  | nil => rfl
  | cons content rest ih => rw [levelParts, partSpans_append, ih, List.flatMap_cons]

/-- The places of the name and of the value of an attribute. -/
def Attribute.spans (attr : Attribute) : List Span := [attr.name.span, attr.value.span]

theorem partSpans_attributes (attributes : List Attribute) :
    partSpans (attributes.flatMap Attribute.parts) = attributes.flatMap Attribute.spans := by
  induction attributes with
  | nil => rfl
  | cons attr attributes ih =>
    rw [List.flatMap_cons, partSpans_append, ih, List.flatMap_cons]
    rfl

/-- The places of a tag itself, its content aside. -/
def tagSpans (name : Located (List Char)) (attributes : List Attribute)
    (close : Option (Located (List Char))) : List Span :=
  name.span :: attributes.flatMap Attribute.spans ++ close.toList.map Located.span

/-- The places of a tag are its own, with those of its content in front of the close tag. -/
theorem perm_partSpans_tag (name : Located (List Char)) (attributes : List Attribute)
    (close : Option (Located (List Char))) (children : List Content) :
    (partSpans (Content.tag name attributes close children).parts).Perm
      (tagSpans name attributes close ++ partSpans (levelParts children)) := by
  have hopening : partSpans (Opening.parts ⟨name, attributes⟩) =
      name.span :: attributes.flatMap Attribute.spans := by
    rw [← partSpans_attributes]
    rfl
  have hparts : partSpans (Content.tag name attributes close children).parts =
      (name.span :: attributes.flatMap Attribute.spans) ++
        (partSpans (levelParts children) ++ close.toList.map Located.span) := by
    cases close with
    | none =>
      rw [Content.parts, partSpans_append, hopening]
      simp [partSpans, Part.mark]
    | some close =>
      rw [Content.parts, List.append_assoc, List.append_assoc, partSpans_append, hopening]
      simp [partSpans, Part.mark, Part.name, closeParts]
  rw [hparts, tagSpans, List.append_assoc]
  exact List.perm_append_comm.append_left _

/-! ## Places follow each other -/

/-- What a token leaves in a tree stops behind the start of the token, and not behind its end. -/
theorem stop_of_mem_part {kind : TokenKind} {offset : Nat} {text : List Char} (hne : text ≠ []) :
    ∀ x ∈ (Token.part ⟨kind, text, Span.ofSize offset (size text)⟩).data,
      offset < x.span.stop ∧ x.span.stop ≤ offset + size text := by
  intro x hx
  have hpos : size text ≠ 0 := fun hzero => hne (size_eq_zero_iff.1 hzero)
  unfold Token.part at hx
  split at hx
  · cases hx
    exact ⟨lt_stop_trimAt offset hne, (standsAt_trimAt offset text).stop_le⟩
  · cases hx
    exact ⟨by simp only [Token.located, Span.ofSize_stop]; omega, Nat.le_refl _⟩
  · cases hx
    exact ⟨by simp only [Span.ofSize_stop]; omega, Nat.le_refl _⟩
  · cases hx

/-- The places that the tokens of a label leave in its tree stop one after the other. -/
theorem ascending_lexFrom (mode : Mode) (offset : Nat) (cs : List Char) :
    (partSpans ((lexFrom mode offset cs).tokens.map Token.part)).Pairwise
        (fun s t => s.stop < t.stop) ∧
      ∀ s ∈ partSpans ((lexFrom mode offset cs).tokens.map Token.part), offset < s.stop := by
  fun_induction lexFrom mode offset cs with
  | case1 => exact ⟨.nil, List.forall_mem_nil _⟩
  | case2 mode offset c cs piece stop tail ih =>
    obtain ⟨hpairwise, hbehind⟩ := ih
    have hstop : offset < stop := by
      have hpos : size piece.taken ≠ 0 :=
        fun hzero => taken_ne_nil mode c cs (size_eq_zero_iff.1 hzero)
      show offset < offset + size piece.taken
      omega
    rw [List.map_append, partSpans_append]
    cases hkind : piece.kind with
    | none => exact ⟨hpairwise, fun s hs => Nat.lt_trans hstop (hbehind s hs)⟩
    | some kind =>
      have htoken : ∀ x ∈ (Token.part ⟨kind, piece.taken, ⟨offset, stop⟩⟩).data,
          offset < x.span.stop ∧ x.span.stop ≤ stop :=
        stop_of_mem_part (taken_ne_nil mode c cs)
      rw [Option.map_some, Option.toList_some, List.map_singleton]
      cases hdata : (Token.part ⟨kind, piece.taken, ⟨offset, stop⟩⟩).data with
      | none =>
        have hnil : partSpans [Token.part ⟨kind, piece.taken, ⟨offset, stop⟩⟩] = [] := by
          rw [partSpans, List.filterMap_cons, hdata]
          rfl
        rw [hnil]
        exact ⟨hpairwise, fun s hs => Nat.lt_trans hstop (hbehind s hs)⟩
      | some x =>
        have hone : partSpans [Token.part ⟨kind, piece.taken, ⟨offset, stop⟩⟩] = [x.span] := by
          rw [partSpans, List.filterMap_cons, hdata]
          rfl
        obtain ⟨hstart, hle⟩ := htoken x hdata
        rw [hone]
        refine ⟨.cons (fun s hs => Nat.lt_of_le_of_lt hle (hbehind s hs)) hpairwise, ?_⟩
        refine List.forall_mem_cons.2 ⟨hstart, fun s hs => ?_⟩
        exact Nat.lt_trans hstop (hbehind s hs)

/-- **Places.** The places of the parts of a tree stop one after the other. -/
theorem ascending_of_read {cs : List Char} {label : List Content} (h : read cs = .ok label) :
    (partSpans (levelParts label)).Pairwise fun s t => s.stop < t.stop := by
  have hclosed : (lex cs).unclosed = [] := by
    unfold read at h
    simp only at h
    split at h
    · cases h
    · next hclosed => exact hclosed
  obtain ⟨tokens, last, htokens, hlast, hne⟩ := exists_tokens_lexFrom .content 0 cs
  have hrun := (read_eq_ok_iff hclosed htokens hlast).1 h
  obtain ⟨hparts, -⟩ := of_run_eq_ok hne hrun
  have hascending := (ascending_lexFrom .content 0 cs).1
  rw [htokens, List.map_append, partSpans_append, ← hparts] at hascending
  exact (List.pairwise_append.1 hascending).1

/-- No place belongs to two parts of a tree. -/
theorem nodup_partSpans_of_read {cs : List Char} {label : List Content}
    (h : read cs = .ok label) : (partSpans (levelParts label)).Nodup := by
  refine (ascending_of_read h).imp fun hlt heq => ?_
  rw [heq] at hlt
  exact Nat.lt_irrefl _ hlt

/-! ## One tag -/

/-- What the diagnostic of a problem shows: its kind, its place and its wording. -/
def Problem.shown (p : Located Problem) : Kind × Span × String :=
  (p.item.kind, p.span, p.item.detail)

theorem detail_selfClosing_ne_misplaced (tag parent : List Char) (allowed : List String) :
    (Problem.selfClosing tag).detail ≠ (Problem.misplaced tag parent allowed).detail := by
  intro h
  have hchars := congrArg String.toList h
  unfold Problem.detail at hchars
  simp [toString] at hchars

theorem detail_selfClosing_ne_textInside (tag : List Char) :
    (Problem.selfClosing tag).detail ≠ (Problem.textInside tag).detail := by
  intro h
  have hchars := congrArg String.toList h
  unfold Problem.detail at hchars
  simp [toString] at hchars

theorem detail_misplaced_ne_textInside (tag parent : List Char) (allowed : List String) :
    (Problem.misplaced tag parent allowed).detail ≠ (Problem.textInside tag).detail := by
  intro h
  have hchars := congrArg String.toList h
  unfold Problem.detail at hchars
  simp [toString] at hchars

section

variable {rule : TagRule} {parent : List Char} {name : Located (List Char)}
  {attributes : List Attribute} {close : Option (Located (List Char))} {children : List Content}

/-- The problems that are reported at the name of a tag, each of them at most once. -/
theorem sublist_nameProblems :
    (selfClosingProblems rule name close ++ parentProblems rule parent name ++
      textProblems rule name children).Sublist
        [⟨.selfClosing name.item, name.span⟩, ⟨.misplaced name.item parent rule.parents, name.span⟩,
          ⟨.textInside name.item, name.span⟩] := by
  have hclosing : (selfClosingProblems rule name close).Sublist
      [⟨.selfClosing name.item, name.span⟩] := by
    unfold selfClosingProblems
    split
    · exact .refl _
    · exact List.nil_sublist _
  have hparent : (parentProblems rule parent name).Sublist
      [⟨.misplaced name.item parent rule.parents, name.span⟩] := by
    unfold parentProblems
    split
    · exact List.nil_sublist _
    · exact .refl _
  have htext : (textProblems rule name children).Sublist [⟨.textInside name.item, name.span⟩] := by
    unfold textProblems
    split
    · exact .refl _
    · exact List.nil_sublist _
  exact (hclosing.append hparent).append htext

/-- They are worded differently. -/
theorem nodup_nameProblems :
    ((selfClosingProblems rule name close ++ parentProblems rule parent name ++
      textProblems rule name children).map Problem.shown).Nodup := by
  refine (sublist_nameProblems.map Problem.shown).nodup ?_
  have hfirst := detail_selfClosing_ne_misplaced name.item parent rule.parents
  have hsecond := detail_selfClosing_ne_textInside name.item
  have hthird := detail_misplaced_ne_textInside name.item parent rule.parents
  simp [Problem.shown, hfirst, hsecond, hthird]

theorem span_of_mem_nameProblems {p : Located Problem}
    (h : p ∈ selfClosingProblems rule name close ++ parentProblems rule parent name ++
      textProblems rule name children) : p.span = name.span := by
  have hmem := sublist_nameProblems.subset h
  simp only [List.mem_cons, List.not_mem_nil, or_false] at hmem
  rcases hmem with rfl | rfl | rfl <;> rfl

theorem sublist_attributeProblems {tag : List Char} :
    ((attributes.flatMap (attributeProblems rule tag)).map Located.span).Sublist
      (attributes.flatMap Attribute.spans) := by
  induction attributes with
  | nil => exact .refl _
  | cons attr attributes ih =>
    rw [List.flatMap_cons, List.map_append, List.flatMap_cons]
    refine List.Sublist.append ?_ ih
    unfold attributeProblems
    simp only
    split
    · exact .cons_cons _ (List.nil_sublist _)
    · split
      · exact List.nil_sublist _
      · exact .cons _ (.refl _)

theorem sublist_closeProblems :
    ((closeProblems name close).map Located.span).Sublist (close.toList.map Located.span) := by
  cases close with
  | none => exact .refl _
  | some close =>
    unfold closeProblems
    simp only
    split
    · exact List.nil_sublist _
    · exact .refl _

/-- The other problems of a tag are reported at places of their own. -/
theorem sublist_otherProblems {tag : List Char} :
    ((attributes.flatMap (attributeProblems rule tag) ++ closeProblems name close).map
      Located.span).Sublist
        (attributes.flatMap Attribute.spans ++ close.toList.map Located.span) := by
  rw [List.map_append]
  exact sublist_attributeProblems.append sublist_closeProblems

/-- Problems at different places are shown differently. -/
theorem nodup_shown_of_spans {problems : List (Located Problem)}
    (h : (problems.map Located.span).Nodup) : (problems.map Problem.shown).Nodup := by
  refine List.Nodup.map_on (fun p hp q hq heq => ?_) h.of_map
  exact List.inj_on_of_nodup_map h hp hq (congrArg (fun shown => shown.2.1) heq)

/-- The problems of a tag that has a rule: those at its name, and the others. -/
theorem perm_tagProblems (hrule : TagRule.find? name.item = some rule) :
    (tagProblems parent name attributes close children).Perm
      ((selfClosingProblems rule name close ++ parentProblems rule parent name ++
          textProblems rule name children) ++
        (attributes.flatMap (attributeProblems rule name.item) ++ closeProblems name close)) := by
  rw [tagProblems, hrule]
  refine List.perm_iff_count.2 fun p => ?_
  simp only [List.count_append]
  omega

/-- The problems of a tag are reported at its own places. -/
theorem span_of_mem_tagProblems {p : Located Problem}
    (h : p ∈ tagProblems parent name attributes close children) :
    p.span ∈ tagSpans name attributes close := by
  cases hrule : TagRule.find? name.item with
  | none =>
    rw [tagProblems, hrule] at h
    rw [List.mem_singleton.1 h]
    exact List.mem_cons_self
  | some rule =>
    rcases List.mem_append.1 ((perm_tagProblems hrule).mem_iff.1 h) with h | h
    · rw [span_of_mem_nameProblems h]
      exact List.mem_cons_self
    · exact List.mem_cons_of_mem _ (sublist_otherProblems.subset (List.mem_map_of_mem h))

/-- None of them is about the neighbours. -/
theorem ne_siblings_of_mem_tagProblems {p : Located Problem}
    (h : p ∈ tagProblems parent name attributes close children) : p.item ≠ .siblings := by
  cases hrule : TagRule.find? name.item with
  | none =>
    rw [tagProblems, hrule] at h
    rw [List.mem_singleton.1 h]
    intro heq
    cases heq
  | some rule =>
    rcases List.mem_append.1 ((perm_tagProblems hrule).mem_iff.1 h) with h | h
    · have hmem := sublist_nameProblems.subset h
      simp only [List.mem_cons, List.not_mem_nil, or_false] at hmem
      rcases hmem with rfl | rfl | rfl <;>
      · intro heq
        cases heq
    · rcases List.mem_append.1 h with h | h
      · obtain ⟨attr, -, h⟩ := List.mem_flatMap.1 h
        simp only [attributeProblems] at h
        split at h
        · rw [List.mem_singleton.1 h]
          intro heq
          cases heq
        · split at h
          · cases h
          · rw [List.mem_singleton.1 h]
            intro heq
            cases heq
      · unfold closeProblems at h
        split at h
        · cases h
        · split at h
          · cases h
          · rw [List.mem_singleton.1 h]
            intro heq
            cases heq

/-- **One tag.** No two problems of a tag are shown alike. -/
theorem nodup_tagProblems (hspans : (tagSpans name attributes close).Nodup) :
    ((tagProblems parent name attributes close children).map Problem.shown).Nodup := by
  cases hrule : TagRule.find? name.item with
  | none =>
    rw [tagProblems, hrule]
    exact List.nodup_singleton _
  | some rule =>
    obtain ⟨hname, hother⟩ := List.nodup_cons.1 hspans
    rw [((perm_tagProblems hrule).map Problem.shown).nodup_iff, List.map_append]
    refine nodup_nameProblems.append (nodup_shown_of_spans (sublist_otherProblems.nodup hother)) ?_
    -- what is reported at the name is not reported at another place of the tag
    intro shown hfirst hsecond
    obtain ⟨p, hp, rfl⟩ := List.mem_map.1 hfirst
    obtain ⟨q, hq, heq⟩ := List.mem_map.1 hsecond
    have hspan : q.span = p.span := congrArg (fun shown => shown.2.1) heq
    have hp := span_of_mem_nameProblems hp
    rw [← hp, ← hspan] at hname
    exact hname (sublist_otherProblems.subset (List.mem_map_of_mem hq))

end

/-! ## Levels -/

/-- The problems of content are shown differently, each of them at a part of it; those about the
neighbours in it are not at its own place. -/
structure Content.IsDistinct (content : Content) (problems : List (Located Problem)) : Prop where
  nodup : (problems.map Problem.shown).Nodup
  at_part : ∀ p ∈ problems, p.span ∈ partSpans content.parts
  inside : ∀ p ∈ problems, p.item = .siblings → p.span ≠ content.place

theorem place_mem_partSpans (content : Content) : content.place ∈ partSpans content.parts := by
  cases content with
  | text run => exact List.mem_cons_self
  | tag name attributes close children =>
    rw [(perm_partSpans_tag name attributes close children).mem_iff]
    exact List.mem_append_left _ List.mem_cons_self

theorem checkContents_eq_flatMap (parent : List Char) (level : List Content) :
    checkContents parent level = level.flatMap (checkContent parent) := by
  induction level with
  | nil => rw [checkContents, List.flatMap_nil]
  | cons content rest ih => rw [checkContents, ih, List.flatMap_cons]

section

variable {level : List Content}

theorem sublist_places : (level.map Content.place).Sublist (partSpans (levelParts level)) := by
  induction level with
  | nil => exact .refl _
  | cons content rest ih =>
    rw [levelParts, partSpans_append]
    exact (List.singleton_sublist.2 (place_mem_partSpans content)).append ih

theorem sublist_siblingProblems :
    ((siblingProblems level).map Located.span).Sublist (level.map Content.place) := by
  unfold siblingProblems
  simp only
  split
  · rw [List.map_map]
    exact List.filter_sublist.map Content.place
  · exact List.nil_sublist _

theorem eq_siblings_of_mem_siblingProblems {p : Located Problem} (h : p ∈ siblingProblems level) :
    p.item = .siblings := by
  unfold siblingProblems at h
  simp only at h
  split at h
  · obtain ⟨content, -, rfl⟩ := List.mem_map.1 h
    rfl
  · cases h

variable (hspans : (partSpans (levelParts level)).Nodup)

include hspans

/-- A place belongs to one piece of content of a level. -/
theorem eq_of_mem_partSpans {x y : Content} {s : Span} (hx : x ∈ level) (hy : y ∈ level)
    (hs : s ∈ partSpans x.parts) (hs' : s ∈ partSpans y.parts) : x = y := by
  rw [partSpans_levelParts, List.nodup_flatMap] at hspans
  have hsymm : Std.Symm (Function.onFun List.Disjoint fun content : Content =>
      partSpans content.parts) := ⟨fun _ _ hdisjoint _ hs hs' => hdisjoint hs' hs⟩
  by_contra hne
  exact hspans.2.forall hx hy hne hs hs'

/-- **One level.** If the problems of each piece of content are distinct, those of the level
are, too. -/
theorem nodup_level {parent : List Char}
    (hlevel : ∀ content ∈ level, content.IsDistinct (checkContent parent content)) :
    ((siblingProblems level ++ checkContents parent level).map Problem.shown).Nodup ∧
      ∀ p ∈ siblingProblems level ++ checkContents parent level,
        p.span ∈ partSpans (levelParts level) := by
  have hsiblings : ∀ p ∈ siblingProblems level, ∃ content ∈ level, content.place = p.span :=
    fun p hp => List.mem_map.1 (sublist_siblingProblems.subset (List.mem_map_of_mem hp))
  constructor
  · rw [List.map_append]
    refine List.Nodup.append ?_ ?_ ?_
    · exact nodup_shown_of_spans ((sublist_siblingProblems.trans sublist_places).nodup hspans)
    · rw [checkContents_eq_flatMap, List.map_flatMap, List.nodup_flatMap]
      refine ⟨fun content hcontent => (hlevel content hcontent).nodup, ?_⟩
      rw [partSpans_levelParts, List.nodup_flatMap] at hspans
      refine hspans.2.imp_of_mem fun hx hy hdisjoint shown hfirst hsecond => ?_
      obtain ⟨p, hp, rfl⟩ := List.mem_map.1 hfirst
      obtain ⟨q, hq, heq⟩ := List.mem_map.1 hsecond
      have hspan : q.span = p.span := congrArg (fun shown => shown.2.1) heq
      exact hdisjoint ((hlevel _ hx).at_part p hp) (hspan ▸ (hlevel _ hy).at_part q hq)
    · -- a problem of the neighbours is at the place of content, not inside it
      intro shown hfirst hsecond
      obtain ⟨p, hp, rfl⟩ := List.mem_map.1 hfirst
      obtain ⟨q, hq, heq⟩ := List.mem_map.1 hsecond
      have hspan : q.span = p.span := congrArg (fun shown => shown.2.1) heq
      have hkind : q.item.kind = p.item.kind := congrArg (fun shown => shown.1) heq
      obtain ⟨x, hx, hplace⟩ := hsiblings p hp
      obtain ⟨y, hy, hq⟩ := mem_checkContents.1 hq
      have hqs : q.item = .siblings := by
        rw [eq_siblings_of_mem_siblingProblems hp] at hkind
        cases hitem : q.item with
        | siblings => rfl
        | _ =>
          rw [hitem] at hkind
          cases hkind
      have heq : x = y := by
        refine eq_of_mem_partSpans hspans hx hy (place_mem_partSpans x) ?_
        rw [hplace, ← hspan]
        exact (hlevel y hy).at_part q hq
      refine (hlevel y hy).inside q hq hqs ?_
      rw [hspan, ← hplace, heq]
  · intro p hp
    rcases List.mem_append.1 hp with hp | hp
    · obtain ⟨content, hcontent, hplace⟩ := hsiblings p hp
      rw [← hplace]
      exact sublist_places.subset (List.mem_map_of_mem hcontent)
    · obtain ⟨content, hcontent, hp⟩ := mem_checkContents.1 hp
      rw [partSpans_levelParts]
      exact List.mem_flatMap.2 ⟨content, hcontent, (hlevel content hcontent).at_part p hp⟩

end

/-! ## Trees -/

/-- Along a tree whose parts have places of their own no problem is found twice. -/
theorem Content.IsPlaced.isDistinct {cs : List Char} {content : Content}
    (h : content.IsPlaced cs) (hspans : (partSpans content.parts).Nodup) :
    ∀ parent, content.IsDistinct (checkContent parent content) := by
  induction h with
  | text _ _ =>
    intro parent
    rw [checkContent]
    exact ⟨.nil, List.forall_mem_nil _, List.forall_mem_nil _⟩
  | @tag name attributes close children _ _ _ _ ih =>
    intro parent
    have hperm := perm_partSpans_tag name attributes close children
    rw [hperm.nodup_iff, List.nodup_append] at hspans
    obtain ⟨htag, hchildren, hdisjoint⟩ := hspans
    have hlevel : ∀ child ∈ children, child.IsDistinct (checkContent name.item child) := by
      intro child hchild
      rw [partSpans_levelParts, List.nodup_flatMap] at hchildren
      exact ih child hchild (hchildren.1 child hchild) name.item
    obtain ⟨hnodup, hinside⟩ := nodup_level hchildren hlevel
    rw [checkContent, List.append_assoc]
    refine ⟨?_, ?_, ?_⟩
    · rw [List.map_append]
      refine (nodup_tagProblems htag).append hnodup ?_
      intro shown hfirst hsecond
      obtain ⟨p, hp, rfl⟩ := List.mem_map.1 hfirst
      obtain ⟨q, hq, heq⟩ := List.mem_map.1 hsecond
      have hspan : q.span = p.span := congrArg (fun shown => shown.2.1) heq
      exact hdisjoint _ (span_of_mem_tagProblems hp) _ (hinside q hq) hspan.symm
    · intro p hp
      rw [hperm.mem_iff]
      rcases List.mem_append.1 hp with hp | hp
      · exact List.mem_append_left _ (span_of_mem_tagProblems hp)
      · exact List.mem_append_right _ (hinside p hp)
    · intro p hp hsiblings
      rcases List.mem_append.1 hp with hp | hp
      · exact absurd hsiblings (ne_siblings_of_mem_tagProblems hp)
      · exact fun hplace => hdisjoint _ List.mem_cons_self _ (hinside p hp) hplace.symm

/-- **Labels.** No two problems of a label are shown alike. -/
theorem nodup_check {cs : List Char} {label : List Content} (h : read cs = .ok label) :
    ((check label).map Problem.shown).Nodup := by
  have hspans := nodup_partSpans_of_read h
  refine (nodup_level hspans fun content hcontent => ?_).1
  rw [partSpans_levelParts, List.nodup_flatMap] at hspans
  exact (isPlaced_of_read h content hcontent).isDistinct (hspans.1 content hcontent) _

end DotAttributes.Markup
