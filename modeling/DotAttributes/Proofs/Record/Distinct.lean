import DotAttributes.Proofs.Record.Leaves

/-!
# The problems of a record label are distinct

The leaves of a record follow each other, each with its port inside it (`areOrdered_of_read`). A
leaf has at most one problem, at its own place or at its port, so the problems of a label follow
each other as well, and no two of them are at the same place (`successive_check`).
-/

namespace DotAttributes.Record

open Text

/-! ## A whole label -/

variable {leaf : Leaf}

/-- Leaves that follow each other and stop no later than at `position`. -/
structure AreOrdered (position : Nat) (leaves : List Leaf) : Prop where
  tidy : ∀ leaf ∈ leaves, leaf.IsTidy ∧ leaf.span.stop ≤ position
  pairwise : leaves.Pairwise fun x y => x.span.stop ≤ y.span.start

/-- **Order.** The leaves of a label follow each other. -/
theorem areOrdered_of_read {cs : List Char} {label : List Field} (h : read cs = .ok label) :
    AreOrdered (size cs) (leavesOf label) := by
  obtain ⟨hapart, htidy⟩ := areApart_of_read h
  constructor
  · intro leaf hleaf
    have hstop := (hapart.inside leaf.span (span_mem_edgesOf hleaf)).2
    exact ⟨htidy leaf hleaf, Nat.le_of_lt_succ hstop⟩
  · have hpairwise := List.pairwise_map.1 (hapart.pairwise.sublist (sublist_edgesOf label))
    exact hpairwise.imp Nat.le_of_lt

/-- What is reported of a leaf is one problem, inside the leaf and not empty. -/
theorem span_of_mem_checkLeaf {names : List (List Char)} {p : Located Problem}
    (hleaf : leaf.IsTidy) (h : p ∈ checkLeaf names leaf) :
    leaf.span.start ≤ p.span.start ∧ p.span.start < p.span.stop ∧
      p.span.stop ≤ leaf.span.stop := by
  unfold checkLeaf at h
  split at h
  · cases h
  · next port hport =>
    obtain ⟨hstart, hlt, hstop⟩ := hleaf.port port hport
    split at h
    · rw [List.mem_singleton.1 h]
      have hlength : leaf.span.start < leaf.span.stop := by omega
      exact ⟨Nat.le_refl _, hlength, Nat.le_refl _⟩
    · split at h
      · rw [List.mem_singleton.1 h]
        exact ⟨hstart, hlt, hstop⟩
      · cases h

theorem length_checkLeaf_le (names : List (List Char)) (leaf : Leaf) :
    (checkLeaf names leaf).length ≤ 1 := by
  unfold checkLeaf
  split
  · exact Nat.zero_le _
  · split
    · exact Nat.le_refl _
    · split
      · exact Nat.le_refl _
      · exact Nat.zero_le _

/-- **Problems.** The problems of a label follow each other. -/
theorem successive_check {cs : List Char} {label : List Field} (h : read cs = .ok label) :
    Successive 0 (check label) := by
  obtain ⟨htidy, hpairwise⟩ := areOrdered_of_read h
  constructor
  · intro p hp
    obtain ⟨leaf, hleaf, hp⟩ := List.mem_flatMap.1 hp
    have hlt := (span_of_mem_checkLeaf (htidy leaf hleaf).1 hp).2.1
    exact ⟨Nat.zero_le _, hlt⟩
  · refine List.pairwise_flatMap.2 ⟨fun leaf _ => ?_, ?_⟩
    · exact pairwise_of_length_le_one (length_checkLeaf_le _ leaf)
    · refine hpairwise.imp_of_mem fun {x y} hx hy hle p hp q hq => ?_
      have hstop := (span_of_mem_checkLeaf (htidy x hx).1 hp).2.2
      have hstart := (span_of_mem_checkLeaf (htidy y hy).1 hq).1
      omega

/-- The place where reading stops is not at the start, unless the label is empty. -/
theorem stop_of_read_error {cs : List Char} {fault : Located Fault} (h : read cs = .error fault)
    (hne : cs ≠ []) : 0 < fault.span.stop := by
  have hsize : size cs ≠ 0 := fun hzero => hne (size_eq_zero_iff.1 hzero)
  unfold read at h
  split at h
  · unfold State.finish at h
    split at h
    · cases h
      exact Nat.pos_of_ne_zero hsize
    · split at h
      · cases h
      · cases h
        exact Nat.pos_of_ne_zero hsize
  · next hrun =>
    cases h
    obtain ⟨before, token, after, _, htokens, -, hstep⟩ := exists_token_of_run_error hrun
    obtain ⟨expected, rfl⟩ := exists_expected_of_step_error hstep
    have hmem : token ∈ tokens cs := by
      rw [htokens]
      exact List.mem_append_right _ List.mem_cons_self
    have hlt := (standsAt_tokens cs token hmem).1.start_lt_stop
      (text_ne_nil_of_mem_joinAtoms 0 token hmem)
    exact Nat.lt_of_le_of_lt (Nat.zero_le _) hlt

end DotAttributes.Record
