import DotAttributes.Proofs.Arrow.Misfits
import DotAttributes.Proofs.Findings

/-!
# Which warnings an arrow type gets

The warnings of a clause depend on the clause and on the shapes in front of it (`Clause.warnings`),
and those of a value are the warnings of its clauses, followed by the one of `none` in the last
place (`checkArrow_eq_warnings`). The check does not look at the clauses in front again: it goes on
with the deprecated shapes that it has reported, and these are the ones in front (`Sees`).
-/

namespace DotAttributes.Arrow

open Text

/-! ## The warnings of a value -/

/-- The shapes of which there is no half. -/
def sideless : List Primitive := [.dot, .none]

/-- The shapes that have no open form. -/
def closedOnly : List Primitive := [.crow, .curve, .icurve, .none, .tee, .vee]

/-- The warnings of a clause of a value that covers `whole`, behind the clauses `front`. -/
def Clause.warnings (whole : Span) (front : List Clause) (c : Clause) : List (Located Problem) :=
  match c.shape with
  | .primitive shape =>
    (if shape ∈ sideless then c.side.toList.map fun half => ⟨.side half shape, whole⟩ else []) ++
      if c.isOpen = true ∧ shape ∈ closedOnly then [⟨.isOpen shape, whole⟩] else []
  | .deprecated shape =>
    if c.shape ∈ front.map Clause.shape then [] else [⟨.deprecated shape, c.span⟩]

/-- The last of several clauses, if its shape is `none`. -/
def noneLast? (clauses : List Clause) : Option Clause :=
  clauses.getLast?.filter fun c => 2 ≤ clauses.length ∧ c.shape = .primitive .none

/-- The warnings of the clauses of a value that covers `whole`. -/
def warnings (whole : Span) (clauses : List Clause) : List (Located Problem) :=
  (clauses.zipIdx.flatMap fun (c, i) => c.warnings whole (clauses.take i)) ++
    (noneLast? clauses).toList.map fun c => ⟨.noneLast, c.fullSpan⟩

/-- A clause of a shape in current use, which takes the modifiers of the clause. -/
structure Clause.IsClean (c : Clause) : Prop where
  current : ∀ shape, c.shape ≠ .deprecated shape
  side : c.side ≠ none → ∀ shape ∈ sideless, c.shape ≠ .primitive shape
  isOpen : c.isOpen = true → ∀ shape ∈ closedOnly, c.shape ≠ .primitive shape

/-! ## Modifiers -/

theorem acceptsSide_eq (shape : Primitive) : shape.acceptsSide = decide (shape ∉ sideless) := by
  cases shape <;> rfl

theorem acceptsOpen_eq (shape : Primitive) : shape.acceptsOpen = decide (shape ∉ closedOnly) := by
  cases shape <;> rfl

variable {whole : Span} {c : Clause} {seen : List Deprecated} {front clauses : List Clause}

/-- The modifiers that do not fit are those of the two tables. -/
theorem map_modifierProblems {shape : Primitive} (hshape : c.shape = .primitive shape) :
    (modifierProblems c.isOpen c.side shape).map (Located.mk · whole) = c.warnings whole front := by
  simp only [modifierProblems, Clause.warnings, hshape, acceptsSide_eq, acceptsOpen_eq,
    List.map_append]
  congr 1
  · cases c.side with
    | none => simp
    | some half => by_cases hmem : shape ∈ sideless <;> simp [hmem]
  · by_cases hmem : shape ∈ closedOnly
    · cases c.isOpen <;> simp [hmem]
    · simp [hmem]

/-- A clause of a shape in current use is clean if all of its modifiers fit. -/
theorem modifierProblems_eq_nil_iff {shape : Primitive} (hshape : c.shape = .primitive shape) :
    modifierProblems c.isOpen c.side shape = [] ↔ c.IsClean := by
  simp only [List.eq_nil_iff_forall_not_mem, mem_modifierProblems, not_or]
  constructor
  · intro h
    refine ⟨fun d hd => ?_, fun hside member hmember heq => ?_, fun hopen member hmember heq => ?_⟩
    · rw [hshape] at hd
      cases hd
    · rw [hshape] at heq
      cases heq
      obtain ⟨half, hhalf⟩ := Option.ne_none_iff_exists'.1 hside
      exact (h (.side half shape)).1 ⟨half, hhalf, by simp [acceptsSide_eq, hmember], rfl⟩
    · rw [hshape] at heq
      cases heq
      exact (h (.isOpen shape)).2 ⟨hopen, by simp [acceptsOpen_eq, hmember], rfl⟩
  · intro hclean p
    constructor
    · rintro ⟨half, hhalf, haccepts, -⟩
      rw [acceptsSide_eq] at haccepts
      exact hclean.side (by simp [hhalf]) shape (by simpa using haccepts) hshape
    · rintro ⟨hopen, haccepts, -⟩
      rw [acceptsOpen_eq] at haccepts
      exact hclean.isOpen hopen shape (by simpa using haccepts) hshape

/-! ## Clauses one after the other -/

/-- The shapes that have been reported are the deprecated shapes in front. -/
def Sees (seen : List Deprecated) (front : List Clause) : Prop :=
  ∀ shape, shape ∈ seen ↔ Shape.deprecated shape ∈ front.map Clause.shape

theorem sees_append_iff {seen' : List Deprecated} (h : Sees seen front) :
    Sees seen' (front ++ [c]) ↔
      ∀ shape, shape ∈ seen' ↔ shape ∈ seen ∨ Shape.deprecated shape = c.shape := by
  simp [Sees, h _]

/-- One clause: its warnings are found, and its shape is seen if it is deprecated. -/
theorem checkClauses_cons (whole : Span) (c : Clause) (clauses : List Clause)
    (h : Sees seen front) :
    ∃ seen', Sees seen' (front ++ [c]) ∧
      checkClauses true whole seen (c :: clauses) =
        c.warnings whole front ++ checkClauses true whole seen' clauses := by
  cases hshape : c.shape with
  | primitive shape =>
    refine ⟨seen, (sees_append_iff h).2 fun d => by simp [hshape], ?_⟩
    simp only [checkClauses, hshape]
    rw [map_modifierProblems hshape]
  | deprecated shape =>
    by_cases hseen : shape ∈ seen
    · refine ⟨seen, (sees_append_iff h).2 fun d => ?_, ?_⟩
      · rw [hshape, Shape.deprecated.injEq]
        exact ⟨.inl, fun hd => hd.elim id fun heq => heq ▸ hseen⟩
      · simp [checkClauses, Clause.warnings, hshape, hseen, ← h shape]
    · refine ⟨shape :: seen, (sees_append_iff h).2 fun d => ?_, ?_⟩
      · rw [hshape, Shape.deprecated.injEq, List.mem_cons, or_comm]
      · simp [checkClauses, Clause.warnings, hshape, hseen, ← h shape]

/-- A run of clauses: the warnings of each of them, behind those in front of it. -/
theorem checkClauses_eq_flatMap (h : Sees seen front) :
    checkClauses true whole seen clauses =
      (clauses.zipIdx front.length).flatMap fun (c, i) =>
        c.warnings whole ((front ++ clauses).take i) := by
  induction clauses generalizing seen front with
  | nil => rfl
  | cons c clauses ih =>
    obtain ⟨seen', hseen', heq⟩ := checkClauses_cons whole c clauses h
    have hrest := ih hseen'
    rw [List.length_append, List.length_singleton, List.append_assoc] at hrest
    have htake : (front ++ c :: clauses).take front.length = front := List.take_left' rfl
    simp only [heq, hrest, List.zipIdx_cons, List.flatMap_cons, htake, List.singleton_append]

/-- A deprecated shape is reported once, at its first occurrence, unless it has been reported. -/
theorem filter_deprecated_checkClauses (shape : Deprecated) (seen : List Deprecated)
    (clauses : List Clause) :
    (checkClauses true whole seen clauses).filter (·.item = .deprecated shape) =
      if shape ∈ seen then []
      else (clauses.find? (·.shape = .deprecated shape)).toList.map
        fun c => ⟨.deprecated shape, c.span⟩ := by
  induction clauses generalizing seen with
  | nil => simp [checkClauses]
  | cons c clauses ih =>
    rw [checkClauses]
    cases hshape : c.shape with
    | primitive other =>
      have hnil : ((modifierProblems c.isOpen c.side other).map (Located.mk · whole)).filter
          (·.item = .deprecated shape) = [] := by
        refine List.filter_eq_nil_iff.2 fun p hp heq => ?_
        obtain ⟨problem, hproblem, rfl⟩ := List.mem_map.1 hp
        have hmisfit := isMisfit_of_mem_modifierProblems hproblem
        have heq : problem = .deprecated shape := of_decide_eq_true heq
        rw [heq] at hmisfit
        cases hmisfit
      simp only
      rw [List.filter_append, hnil, List.nil_append, ih, List.find?_cons_of_neg (by simp [hshape])]
    | deprecated other =>
      by_cases heq : other = shape
      · subst heq
        by_cases hseen : other ∈ seen <;> simp [hseen, ih, hshape]
      · have hne : ¬ shape = other := fun h => heq h.symm
        by_cases hseen : other ∈ seen <;> simp [hseen, ih, hshape, heq, hne]

/-- Nothing is found exactly if every clause is clean. -/
theorem checkClauses_eq_nil_iff :
    checkClauses true whole [] clauses = [] ↔ ∀ c ∈ clauses, c.IsClean := by
  induction clauses with
  | nil => simp [checkClauses]
  | cons c clauses ih =>
    rw [checkClauses, List.forall_mem_cons]
    cases hshape : c.shape with
    | primitive shape =>
      simp only
      rw [List.append_eq_nil_iff, List.map_eq_nil_iff, modifierProblems_eq_nil_iff hshape, ih]
    | deprecated shape =>
      exact iff_of_false (List.cons_ne_nil _ _) fun h => h.1.current shape hshape

/-- The warning of `none` in the last place. -/
theorem checkLast_eq (arrow : Arrow) :
    checkLast arrow = (noneLast? arrow.clauses).toList.map fun c => ⟨.noneLast, c.fullSpan⟩ := by
  rw [checkLast, Arrow.last?, noneLast?]
  cases arrow.clauses.getLast? with
  | none => rfl
  | some c =>
    simp only [Option.filter_some, Nat.lt_iff_add_one_le]
    split <;> simp_all

/-- What is found of an arrow type are its warnings. -/
theorem check_eq_warnings (whole : Span) (arrow : Arrow) :
    check true whole arrow = warnings whole arrow.clauses := by
  have hnone : Sees [] [] := by simp [Sees]
  rw [check, checkLast_eq, checkClauses_eq_flatMap hnone]
  rfl

theorem check_eq_nil_iff (whole : Span) (arrow : Arrow) :
    check true whole arrow = [] ↔
      (∀ c ∈ arrow.clauses, c.IsClean) ∧ noneLast? arrow.clauses = none := by
  rw [check, List.append_eq_nil_iff, checkClauses_eq_nil_iff, checkLast_eq, List.map_eq_nil_iff,
    Option.toList_eq_nil_iff]

theorem filter_deprecated_check (whole : Span) (shape : Deprecated) (arrow : Arrow) :
    (check true whole arrow).filter (·.item = .deprecated shape) =
      (arrow.clauses.find? (·.shape = .deprecated shape)).toList.map
        fun c => ⟨.deprecated shape, c.span⟩ := by
  have hlast : (checkLast arrow).filter (·.item = .deprecated shape) = [] := by
    refine List.filter_eq_nil_iff.2 fun p hp heq => ?_
    rw [item_of_mem_checkLast hp] at heq
    cases of_decide_eq_true heq
  rw [check, List.filter_append, hlast, List.append_nil, filter_deprecated_checkClauses,
    if_neg List.not_mem_nil]

end DotAttributes.Arrow

namespace DotAttributes

open Arrow Text

/-- **Warnings of arrow types.** Of an arrow type its warnings are found, clause by clause, and
nothing else: a deprecated shape once, where it occurs first, and `none` at the last clause as it is
written. All of them are warnings, and there are none exactly if every clause is clean and `none` is
not the last one of several. -/
theorem checkArrow_eq_warnings {a : Attribute} {arrow : Arrow}
    (hread : Arrow.read a.chars = .ok arrow) :
    checkArrow true a = a.findings .arrow (warnings ⟨0, size a.chars⟩ arrow.clauses) ∧
      outlines (checkArrow true a) = (warnings ⟨0, size a.chars⟩ arrow.clauses).map (fun p =>
        ⟨.warning, some p.item.kind.code, some a.name, some (a.absolute p.span)⟩) ∧
      (∀ shape, (warnings ⟨0, size a.chars⟩ arrow.clauses).filter (·.item = .deprecated shape) =
        (arrow.clauses.find? (·.shape = .deprecated shape)).toList.map
          fun c => ⟨.deprecated shape, c.span⟩) ∧
      (∀ c ∈ arrow.clauses, slice? a.chars c.span = some c.shape.name.toList ∧
        slice? a.chars c.fullSpan = some c.written) ∧
      (checkArrow true a = [] ↔
        (∀ c ∈ arrow.clauses, c.IsClean) ∧ noneLast? arrow.clauses = none) := by
  have hcheck : checkArrow true a =
      a.findings .arrow (warnings ⟨0, size a.chars⟩ arrow.clauses) := by
    rw [checkArrow, hread, ← check_eq_warnings]
  refine ⟨hcheck, ?_, ?_, ?_, ?_⟩
  · rw [hcheck, outlines, Attribute.findings, List.map_map]
    refine List.map_congr_left fun p _ => ?_
    simp only [Function.comp_apply, Finding.outline_diagnostic, Finding.kind, Problem.kind,
      p.item.severity_kind, Finding.attrName?, Finding.span]
  · intro shape
    rw [← check_eq_warnings, filter_deprecated_check]
  · intro c hc
    obtain ⟨hname, hfull⟩ := isPlaced_of_read hread c hc
    exact ⟨slice?_eq_some_iff.2 hname, slice?_eq_some_iff.2 hfull⟩
  · rw [hcheck, Attribute.findings, List.map_eq_nil_iff, ← check_eq_warnings, check_eq_nil_iff]

/-- All sorts of warnings: of a deprecated shape that occurs twice, of modifiers, and of `none` with
modifiers at the end. -/
theorem checkArrow_eq_warnings_openAndNone :
    let a := Attribute.writtenAt 10 .quoted "arrowhead" "openoteeopenolnone"
    Arrow.read a.chars = .ok ⟨[⟨false, none, .deprecated .openHead, ⟨0, 4⟩⟩,
      ⟨true, none, .primitive .tee, ⟨5, 8⟩⟩, ⟨false, none, .deprecated .openHead, ⟨8, 12⟩⟩,
      ⟨true, some .left, .primitive .none, ⟨14, 18⟩⟩]⟩ ∧
    outlines (checkArrow true a) =
      [⟨.warning, some "DEPRECATED_VALUE", some "arrowhead", some ⟨11, 15⟩⟩,
        ⟨.warning, some "ARROW_MODIFIER_INVALID", some "arrowhead", some ⟨11, 29⟩⟩,
        ⟨.warning, some "ARROW_MODIFIER_INVALID", some "arrowhead", some ⟨11, 29⟩⟩,
        ⟨.warning, some "ARROW_MODIFIER_INVALID", some "arrowhead", some ⟨11, 29⟩⟩,
        ⟨.warning, some "ARROW_NONE_LAST", some "arrowhead", some ⟨23, 29⟩⟩] := by
  intro a
  have hread : Arrow.read a.chars = .ok ⟨[⟨false, none, .deprecated .openHead, ⟨0, 4⟩⟩,
      ⟨true, none, .primitive .tee, ⟨5, 8⟩⟩, ⟨false, none, .deprecated .openHead, ⟨8, 12⟩⟩,
      ⟨true, some .left, .primitive .none, ⟨14, 18⟩⟩]⟩ := by
    decide +kernel
  exact ⟨hread, (checkArrow_eq_warnings hread).2.1.trans (by decide)⟩

end DotAttributes
