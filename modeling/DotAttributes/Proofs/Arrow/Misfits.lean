import DotAttributes.Proofs.Arrow.Language
import Mathlib.Data.List.Count
import Mathlib.Data.List.Nodup

/-!
# How often a problem of an arrow type is found

A deprecated shape is found at its name and `none` in the last place at its clause, so each of
these problems is found once. A modifier that its shape does not take is found at the whole value,
once for each clause that has it (`misfits`), and two clauses may have it (`count_check`).
-/

namespace DotAttributes.Arrow

open Text

/-! ## Modifiers that do not fit -/

/-- Whether a problem is a modifier that its shape does not take. -/
def Problem.isMisfit : Problem → Bool
  | side .. | isOpen _ => true
  | deprecated _ | noneLast => false

/-- The modifiers of a clause that its shape does not take. -/
def Clause.misfits (c : Clause) : List Problem :=
  match c.shape with
  | .primitive shape => modifierProblems c.isOpen c.side shape
  | .deprecated _ => []

/-- The modifiers that their shapes do not take, clause by clause. -/
def misfits (clauses : List Clause) : List Problem := clauses.flatMap Clause.misfits

theorem isMisfit_of_mem_modifierProblems {isOpen : Bool} {side : Option Side} {shape : Primitive}
    {p : Problem} (h : p ∈ modifierProblems isOpen side shape) : p.isMisfit = true := by
  rcases mem_modifierProblems.1 h with ⟨half, -, -, rfl⟩ | ⟨-, -, rfl⟩ <;> rfl

theorem isMisfit_of_mem_misfits {clauses : List Clause} {p : Problem} (h : p ∈ misfits clauses) :
    p.isMisfit = true := by
  obtain ⟨c, -, hp⟩ := List.mem_flatMap.1 h
  unfold Clause.misfits at hp
  split at hp
  · exact isMisfit_of_mem_modifierProblems hp
  · cases hp

variable {deprecations : Bool} {whole : Span}

/-- What is found of modifiers: the misfits of the clauses, all of them at the whole value. -/
theorem filter_isMisfit_checkClauses (seen : List Deprecated) (clauses : List Clause) :
    (checkClauses deprecations whole seen clauses).filter (·.item.isMisfit) =
      (misfits clauses).map (⟨·, whole⟩) := by
  induction clauses generalizing seen with
  | nil => rfl
  | cons c clauses ih =>
    rw [checkClauses]
    cases hshape : c.shape with
    | primitive shape =>
      have hall : ∀ p ∈ (modifierProblems c.isOpen c.side shape).map (Located.mk · whole),
          p.item.isMisfit = true := by
        intro p hp
        obtain ⟨problem, hproblem, rfl⟩ := List.mem_map.1 hp
        exact isMisfit_of_mem_modifierProblems hproblem
      have hcons : misfits (c :: clauses) =
          modifierProblems c.isOpen c.side shape ++ misfits clauses := by
        rw [misfits, List.flatMap_cons, Clause.misfits, hshape]
        rfl
      simp only
      rw [List.filter_append, List.filter_eq_self.2 hall, ih, hcons, List.map_append]
    | deprecated shape =>
      have hcons : misfits (c :: clauses) = misfits clauses := by
        rw [misfits, List.flatMap_cons, Clause.misfits, hshape]
        rfl
      simp only
      rw [hcons]
      split
      · rw [List.filter_cons_of_neg (by exact Bool.false_ne_true)]
        exact ih _
      · exact ih _

/-- What else is found of the clauses is at the names of some of them. -/
theorem sublist_checkClauses (seen : List Deprecated) (clauses : List Clause) :
    (((checkClauses deprecations whole seen clauses).filter (!·.item.isMisfit)).map
      Located.span).Sublist (clauses.map Clause.span) := by
  induction clauses generalizing seen with
  | nil => exact .refl _
  | cons c clauses ih =>
    rw [checkClauses, List.map_cons]
    cases hshape : c.shape with
    | primitive shape =>
      have hall : ∀ p ∈ (modifierProblems c.isOpen c.side shape).map (Located.mk · whole),
          ¬ (!p.item.isMisfit) = true := by
        intro p hp
        obtain ⟨problem, hproblem, rfl⟩ := List.mem_map.1 hp
        simp [isMisfit_of_mem_modifierProblems hproblem]
      simp only
      rw [List.filter_append, List.filter_eq_nil_iff.2 hall, List.nil_append]
      exact (ih seen).cons _
    | deprecated shape =>
      simp only
      split
      · rw [List.filter_cons_of_pos (by rfl), List.map_cons]
        exact (ih _).cons_cons _
      · exact (ih _).cons _

/-! ## Counting -/

theorem ascending_of_tile {start stop : Nat} {l : List Span} (h : Span.Tile start stop l) :
    (l.Pairwise fun s t => s.stop < t.stop) ∧ ∀ s ∈ l, start < s.stop := by
  induction l generalizing start with
  | nil => exact ⟨.nil, nofun⟩
  | cons s l ih =>
    obtain ⟨hstart, hlt, hrest⟩ := h
    obtain ⟨hpairwise, hbehind⟩ := ih hrest
    refine ⟨.cons hbehind hpairwise, List.forall_mem_cons.2 ⟨by omega, fun t ht => ?_⟩⟩
    have hbehind := hbehind t ht
    omega

/-- The names of the clauses stop one after the other, behind the start of the value. -/
theorem ascending_of_read {cs : List Char} {arrow : Arrow} (h : read cs = .ok arrow) :
    (arrow.clauses.Pairwise fun x y => x.span.stop < y.span.stop) ∧
      ∀ c ∈ arrow.clauses, 0 < c.span.stop := by
  obtain ⟨hpairwise, hbehind⟩ := ascending_of_tile (tile_of_readClauses (read_eq_ok_iff.1 h).2.1)
  rw [List.pairwise_map] at hpairwise
  exact ⟨hpairwise, fun c hc => hbehind c.fullSpan (List.mem_map_of_mem hc)⟩

theorem item_of_mem_checkLast {arrow : Arrow} {p : Located Problem} (h : p ∈ checkLast arrow) :
    p.item = .noneLast := by
  unfold checkLast at h
  split at h
  · split at h
    · rw [List.mem_singleton.1 h]
    · cases h
  · cases h

theorem length_checkLast_le (arrow : Arrow) : (checkLast arrow).length ≤ 1 := by
  unfold checkLast
  split
  · split
    · exact Nat.le_refl _
    · exact Nat.zero_le _
  · exact Nat.zero_le _

theorem item_of_mem_checkClauses {seen : List Deprecated} {clauses : List Clause}
    {p : Located Problem} (h : p ∈ checkClauses deprecations whole seen clauses) :
    p.item ≠ .noneLast := by
  induction clauses generalizing seen with
  | nil => cases h
  | cons c clauses ih =>
    rw [checkClauses] at h
    split at h
    · rcases List.mem_append.1 h with h | h
      · obtain ⟨problem, hproblem, rfl⟩ := List.mem_map.1 h
        intro heq
        have hmisfit := isMisfit_of_mem_modifierProblems hproblem
        have heq : problem = .noneLast := heq
        rw [heq] at hmisfit
        cases hmisfit
      · exact ih h
    · split at h
      · rcases List.mem_cons.1 h with rfl | h
        · intro heq
          cases heq
        · exact ih h
      · exact ih h

/-- What is found besides modifiers is found once. -/
theorem nodup_filter_check {cs : List Char} {arrow : Arrow} (h : read cs = .ok arrow) :
    ((check deprecations whole arrow).filter (!·.item.isMisfit)).Nodup := by
  obtain ⟨hpairwise, -⟩ := ascending_of_read h
  have hspans : (arrow.clauses.map Clause.span).Nodup := by
    refine List.pairwise_map.2 (hpairwise.imp fun hlt heq => ?_)
    rw [heq] at hlt
    exact Nat.lt_irrefl _ hlt
  rw [check, List.filter_append]
  refine List.Nodup.append ?_ ?_ ?_
  · exact ((sublist_checkClauses [] arrow.clauses).nodup hspans).of_map
  · exact List.Nodup.filter _ (pairwise_of_length_le_one (length_checkLast_le arrow))
  · intro p hclause hlast
    exact item_of_mem_checkClauses (List.mem_filter.1 hclause).1
      (item_of_mem_checkLast (List.mem_filter.1 hlast).1)

theorem filter_isMisfit_check (arrow : Arrow) :
    (check deprecations whole arrow).filter (·.item.isMisfit) =
      (misfits arrow.clauses).map (⟨·, whole⟩) := by
  have hlast : ∀ p ∈ checkLast arrow, ¬ p.item.isMisfit = true := by
    intro p hp
    rw [item_of_mem_checkLast hp]
    exact Bool.false_ne_true
  rw [check, List.filter_append, List.filter_eq_nil_iff.2 hlast, List.append_nil,
    filter_isMisfit_checkClauses]

/-- **Counting.** What is found of an arrow type is found once, or it is a modifier and is found
as often as clauses have it. -/
theorem count_check {cs : List Char} {arrow : Arrow} (hread : read cs = .ok arrow)
    {p : Located Problem} (h : p ∈ check deprecations whole arrow) :
    (check deprecations whole arrow).count p = 1 ∨
      (p.span = whole ∧ p.item ∈ misfits arrow.clauses ∧
        (check deprecations whole arrow).count p = (misfits arrow.clauses).count p.item) := by
  cases hp : p.item.isMisfit with
  | false =>
    left
    have hmem : p ∈ (check deprecations whole arrow).filter (!·.item.isMisfit) :=
      List.mem_filter.2 ⟨h, by rw [hp]; rfl⟩
    rw [← List.count_filter (p := fun x => !x.item.isMisfit) (by rw [hp]; rfl)]
    exact List.count_eq_one_of_mem (nodup_filter_check hread) hmem
  | true =>
    right
    have hmem : p ∈ (check deprecations whole arrow).filter (·.item.isMisfit) :=
      List.mem_filter.2 ⟨h, hp⟩
    rw [filter_isMisfit_check] at hmem
    obtain ⟨problem, hproblem, rfl⟩ := List.mem_map.1 hmem
    refine ⟨rfl, hproblem, ?_⟩
    have hinj : Function.Injective (Located.mk · whole : Problem → Located Problem) :=
      fun x y heq => congrArg Located.item heq
    rw [← List.count_filter (p := fun x => x.item.isMisfit) hp, filter_isMisfit_check]
    exact List.count_map_of_injective _ _ hinj problem

/-- What is found of a value that is not empty stops behind its start. -/
theorem stop_of_mem_check {cs : List Char} {arrow : Arrow} (hread : read cs = .ok arrow)
    {p : Located Problem} (h : p ∈ check deprecations ⟨0, size cs⟩ arrow) : 0 < p.span.stop := by
  obtain ⟨-, hbehind⟩ := ascending_of_read hread
  have hsize : size cs ≠ 0 := fun hzero => (read_eq_ok_iff.1 hread).1 (size_eq_zero_iff.1 hzero)
  rcases List.mem_append.1 h with h | h
  · cases hp : p.item.isMisfit with
    | true =>
      have hmem : p ∈ (checkClauses deprecations ⟨0, size cs⟩ [] arrow.clauses).filter
          (·.item.isMisfit) := List.mem_filter.2 ⟨h, hp⟩
      rw [filter_isMisfit_checkClauses] at hmem
      obtain ⟨problem, -, rfl⟩ := List.mem_map.1 hmem
      exact Nat.pos_of_ne_zero hsize
    | false =>
      have hmem : p ∈ (checkClauses deprecations ⟨0, size cs⟩ [] arrow.clauses).filter
          (!·.item.isMisfit) := List.mem_filter.2 ⟨h, by rw [hp]; rfl⟩
      obtain ⟨c, hc, hspan⟩ := List.mem_map.1
        ((sublist_checkClauses [] arrow.clauses).subset (List.mem_map_of_mem hmem))
      rw [← hspan]
      exact hbehind c hc
  · unfold checkLast at h
    split at h
    · next c hlast =>
      split at h
      · rw [List.mem_singleton.1 h]
        exact hbehind c (List.mem_of_getLast? hlast)
      · cases h
    · cases h

/-! ## The wording of problems -/

/-- All problems that an arrow type can have. -/
def Problem.all : List Problem :=
  Deprecated.all.map deprecated ++ [Side.left, Side.right].flatMap (Primitive.all.map ∘ side) ++
    Primitive.all.map isOpen ++ [noneLast]

theorem Problem.mem_all (p : Problem) : p ∈ all := by
  cases p with
  | deprecated shape => cases shape <;> decide
  | side half shape => cases half <;> cases shape <;> decide
  | isOpen shape => cases shape <;> decide
  | noneLast => decide

/-- Different problems are worded differently. -/
theorem Problem.eq_of_detail {p q : Problem} (h : p.detail = q.detail) : p = q := by
  have hnodup : (all.map detail).Nodup := by decide +kernel
  exact List.inj_on_of_nodup_map hnodup (mem_all p) (mem_all q) h

end DotAttributes.Arrow
