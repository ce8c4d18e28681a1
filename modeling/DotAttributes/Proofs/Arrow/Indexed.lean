import DotAttributes.Arrow.Check
import DotAttributes.Proofs.Arrow.Spans
import DotAttributes.Proofs.Offsets

/-!
# Reading arrow types by offsets

The reader of arrow types as one that goes over the whole value and looks at what follows the
offset it has reached. Slices can fail, and so can the subtraction that takes the modifiers into
the place of a clause; besides, each clause has to end behind its start, or the reader would not
come to an end. None of this happens, and what is read and found is the same (`read?_eq`,
`check?_eq`).
-/

namespace DotAttributes.Arrow.Indexed

open Text

/-! ## The reader -/

/-- The longest of the names with which a text starts. -/
def longestShape? (shapes : List Shape) (cs : List Char) : Option Shape :=
  (longest? shapes cs).map Prod.fst

/-- The half that a letter stands for. -/
def sideOf? : Option Char → Option Side
  | some 'l' => some .left
  | some 'r' => some .right
  | _ => none

/-- Reads the clause at an offset, if there is one. -/
def readClause? (text : List Char) (start : Nat) : Option (Option Clause) := do
  match longestShape? Shape.all (← from? text start) with
  | some shape => some (some ⟨false, none, shape, Span.ofSize start (size shape.name.toList)⟩)
  | none =>
    let isOpen := (← from? text start).head? == some 'o'
    let behindOpen := start + isOpen.toNat
    let side := sideOf? (← from? text behindOpen).head?
    let behindSide := behindOpen + side.isSome.toNat
    some ((longestShape? Shape.primitives (← from? text behindSide)).map fun shape =>
      ⟨isOpen, side, shape, Span.ofSize behindSide (size shape.name.toList)⟩)

/-- Reads the clauses from an offset on. -/
def readClauses? (text : List Char) (pos : Nat) :
    Option (Except (Located Fault) (List Clause)) :=
  if _h : pos < size text then do
    match ← readClause? text pos with
    | none => some (.error ⟨.noClause (charAt text pos), charSpan pos (charAt text pos)⟩)
    | some clause =>
      if _h' : pos < clause.span.stop then
        match ← readClauses? text clause.span.stop with
        | .ok clauses => some (.ok (clause :: clauses))
        | .error fault => some (.error fault)
      else none
  else some (.ok [])
termination_by size text - pos

/-- Reads an arrow type. -/
def read? (text : List Char) : Option (Except (Located Fault) Arrow) :=
  if text = [] then some (.error ⟨.empty, Span.empty 0⟩)
  else do
    match ← readClauses? text 0 with
    | .error fault => some (.error fault)
    | .ok clauses =>
      if maxClauses < clauses.length then some (.error ⟨.tooMany, ⟨0, size text⟩⟩)
      else some (.ok ⟨clauses⟩)

/-! ## The checks -/

/-- The place of a clause, modifiers included. -/
def fullSpan? (c : Clause) : Option Span := do
  let start ← subtract? c.span.start (modifierSize c.isOpen c.side)
  some ⟨start, c.span.stop⟩

/-- The problem of `none` standing last among several clauses. -/
def checkLast? (a : Arrow) : Option (List (Located Problem)) :=
  match a.last? with
  | some c =>
    if 1 < a.clauses.length ∧ c.shape = .primitive .none then do
      let span ← fullSpan? c
      some [⟨.noneLast, span⟩]
    else some []
  | none => some []

/-- The problems of an arrow type whose value covers `whole`. -/
def check? (deprecations : Bool) (whole : Span) (a : Arrow) : Option (List (Located Problem)) := do
  let last ← checkLast? a
  some (checkClauses deprecations whole [] a.clauses ++ last)

/-! ## Clauses -/

theorem head?_takeOpen (cs : List Char) : (cs.head? == some 'o') = (takeOpen cs).1 := by
  unfold takeOpen
  split
  · rfl
  · next hno =>
    cases cs with
    | nil => rfl
    | cons c cs =>
      have hc : c ≠ 'o' := by
        rintro rfl
        exact hno cs rfl
      simp [hc]

theorem sideOf?_head? (cs : List Char) : sideOf? cs.head? = (takeSide cs).1 := by
  unfold takeSide
  split
  · rfl
  · rfl
  · next hleft hright =>
    cases cs with
    | nil => rfl
    | cons c cs =>
      unfold sideOf?
      split
      · next heq =>
        cases heq
        exact absurd rfl (hleft cs)
      · next heq =>
        cases heq
        exact absurd rfl (hright cs)
      · rfl

variable (before rest : List Char)

/-- A reader behind some letters reads what follows them. -/
theorem readClause?_append : readClause? (before ++ rest) (size before) =
    some ((Arrow.readClause? (size before) rest).map Prod.fst) := by
  rw [readClause?, Arrow.readClause?, from?_append]
  simp only [Option.bind_eq_bind, Option.bind_some, longestShape?]
  cases hall : longest? Shape.all rest with
  | some found => rfl
  | none =>
    -- behind each modifier the text that is left stands at the offset that the reader computes
    have hopen : before ++ rest =
        (before ++ if (takeOpen rest).1 then ['o'] else []) ++ (takeOpen rest).2 := by
      rw [List.append_assoc, ← takeOpen_append]
    have hopenSize : size before + (takeOpen rest).1.toNat =
        size (before ++ if (takeOpen rest).1 then ['o'] else []) := by
      rw [size_append]
      cases (takeOpen rest).1 <;> rfl
    have hside : before ++ rest =
        (before ++ modifierText (takeOpen rest).1 (takeSide (takeOpen rest).2).1) ++
          (takeSide (takeOpen rest).2).2 := by
      rw [hopen, modifierText]
      simp only [List.append_assoc]
      rw [← takeSide_append]
    have hsideSize : size before + (takeOpen rest).1.toNat +
          (takeSide (takeOpen rest).2).1.isSome.toNat =
        size (before ++ modifierText (takeOpen rest).1 (takeSide (takeOpen rest).2).1) := by
      rw [size_append, size_modifierText, modifierSize, Nat.add_assoc]
    have hbehindOpen : from? (before ++ rest) (size before + (takeOpen rest).1.toNat) =
        some (takeOpen rest).2 := by
      rw [hopen, hopenSize, from?_append]
    have hbehindSide : from? (before ++ rest) (size before + (takeOpen rest).1.toNat +
        (takeSide (takeOpen rest).2).1.isSome.toNat) = some (takeSide (takeOpen rest).2).2 := by
      rw [hside, hsideSize, from?_append]
    simp only [Option.map_none, head?_takeOpen, hbehindOpen, Option.bind_some, sideOf?_head?,
      hbehindSide, Option.map_map, modifierSize, ← Nat.add_assoc]
    rfl

/-! ## Values -/

theorem readClauses?_append : readClauses? (before ++ rest) (size before) =
    some (readClauses (size before) rest) := by
  induction hn : rest.length using Nat.strong_induction_on generalizing before rest with
  | _ n ih =>
    subst hn
    rw [readClauses?, readClauses]
    by_cases hnil : rest = []
    · subst hnil
      rw [dif_neg (by simp), if_pos rfl]
    · have hpos : size rest ≠ 0 := fun hzero => hnil (size_eq_zero_iff.1 hzero)
      have hin : size before < size (before ++ rest) := by
        rw [size_append]
        omega
      rw [dif_pos hin, if_neg hnil, readClause?_append]
      simp only [Option.bind_eq_bind, Option.bind_some, charAt_append]
      cases hclause : Arrow.readClause? (size before) rest with
      | none => rfl
      | some found =>
        obtain ⟨clause, behind⟩ := found
        have hrest := (readClause?_eq_some hclause).1
        have hstop : clause.span.stop = size (before ++ clause.written) := by
          rw [stop_of_readClause? hclause, size_append]
        have hless : behind.length < rest.length := length_lt_of_readClause? hclause
        have hwritten : size clause.written ≠ 0 := by
          intro hzero
          rw [hrest, size_eq_zero_iff.1 hzero] at hless
          exact Nat.lt_irrefl _ hless
        have hforward : size before < clause.span.stop := by
          rw [hstop, size_append]
          omega
        have htail := ih _ hless (before ++ clause.written) behind rfl
        rw [List.append_assoc, ← hrest, ← hstop] at htail
        simp only [Option.map_some, dif_pos hforward, htail, Option.bind_some]
        cases readClauses clause.span.stop behind <;> rfl

/-- **Arrow types by offsets.** No slice of the reader fails, and it reads what it should. -/
theorem read?_eq (text : List Char) : read? text = some (Arrow.read text) := by
  have hclauses := readClauses?_append [] text
  rw [List.nil_append, size_nil] at hclauses
  rw [read?, Arrow.read, hclauses]
  by_cases hnil : text = []
  · rw [if_pos hnil, if_pos hnil]
  · rw [if_neg hnil, if_neg hnil]
    cases readClauses 0 text with
    | error fault => rfl
    | ok clauses =>
      by_cases hmany : maxClauses < clauses.length
      · simp [hmany]
      · simp [hmany]

/-- The modifiers of a clause that stands in a text stand in front of its name. -/
theorem fullSpan?_eq {cs : List Char} {c : Clause} (h : c.IsPlaced 0 cs) :
    fullSpan? c = some c.fullSpan := by
  obtain ⟨before, after, -, hname⟩ := h.1
  obtain ⟨before', after', -, hfull⟩ := h.2
  have hstop : c.fullSpan.stop = c.span.stop := rfl
  have hstart : c.fullSpan.start = c.span.start - modifierSize c.isOpen c.side := rfl
  rw [hname, Span.ofSize_start] at hstart
  rw [hname, hfull] at hstop
  rw [hfull] at hstart
  simp only [Span.ofSize_start, Span.ofSize_stop, Clause.written, size_append, size_modifierText]
    at hstart hstop
  have hle : modifierSize c.isOpen c.side ≤ c.span.start := by
    rw [hname, Span.ofSize_start]
    omega
  rw [fullSpan?, subtract?, if_pos hle]
  rfl

/-- **Checks of arrow types by offsets.** No subtraction goes below zero. -/
theorem check?_eq {text : List Char} {arrow : Arrow} (h : Arrow.read text = .ok arrow)
    (deprecations : Bool) (whole : Span) :
    check? deprecations whole arrow = some (check deprecations whole arrow) := by
  have hlast : checkLast? arrow = some (checkLast arrow) := by
    rw [checkLast?, checkLast]
    cases hc : arrow.last? with
    | none => rfl
    | some c =>
      have hplaced := isPlaced_of_read h c (List.mem_of_getLast? hc)
      simp only [fullSpan?_eq hplaced, Option.bind_eq_bind, Option.bind_some]
      split <;> rfl
  rw [check?, hlast]
  rfl

end DotAttributes.Arrow.Indexed
