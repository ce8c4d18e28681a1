import DotAttributes.Arrow.Check
import DotAttributes.Arrow.Reading
import DotAttributes.Proofs.Slice

/-!
# Where the clauses of an arrow type stand

A clause is taken off the front of a text as it is written: its modifiers and its name
(`readClause?_eq_some`). So every clause of a value that reads well stands at its place, with
and without its modifiers (`isPlaced_of_readClauses`), and so does what is reported of it.
-/

namespace DotAttributes.Arrow

open Text

/-! ## Clauses as they are written -/

/-- The letters of modifiers. -/
def modifierText (isOpen : Bool) (side : Option Side) : List Char :=
  (if isOpen then ['o'] else []) ++ side.toList.map Side.letter

/-- The characters of a clause. -/
def Clause.written (c : Clause) : List Char :=
  modifierText c.isOpen c.side ++ c.shape.name.toList

theorem size_modifierText (isOpen : Bool) (side : Option Side) :
    size (modifierText isOpen side) = modifierSize isOpen side := by
  cases isOpen <;> rcases side with _ | (_ | _) <;> rfl

theorem takeOpen_append (cs : List Char) :
    cs = (if (takeOpen cs).1 then ['o'] else []) ++ (takeOpen cs).2 := by
  unfold takeOpen
  split <;> rfl

theorem takeSide_append (cs : List Char) :
    cs = (takeSide cs).1.toList.map Side.letter ++ (takeSide cs).2 := by
  unfold takeSide
  split <;> rfl

/-- A clause is what is taken off the front of the text, and its place is that of its name. -/
theorem readClause?_eq_some {offset : Nat} {cs rest : List Char} {c : Clause}
    (h : readClause? offset cs = some (c, rest)) :
    cs = c.written ++ rest ∧
      c.span = Span.ofSize (offset + modifierSize c.isOpen c.side) (size c.shape.name.toList) := by
  unfold readClause? at h
  split at h
  · next shape rest' hlongest =>
    cases h
    exact ⟨(longest?_eq_some hlongest).2, rfl⟩
  · obtain ⟨⟨shape, rest'⟩, hlongest, heq⟩ := Option.map_eq_some_iff.1 h
    cases heq
    refine ⟨?_, rfl⟩
    have hname := (longest?_eq_some hlongest).2
    calc cs = (if (takeOpen cs).1 then ['o'] else []) ++ (takeOpen cs).2 := takeOpen_append cs
      _ = (if (takeOpen cs).1 then ['o'] else []) ++
            ((takeSide (takeOpen cs).2).1.toList.map Side.letter ++
              (takeSide (takeOpen cs).2).2) := by rw [← takeSide_append]
      _ = _ := by
        rw [hname]
        simp only [Clause.written, modifierText, List.append_assoc]

/-! ## Places -/

/-- A clause stands at its place with its modifiers, and its name at its place without them. -/
def Clause.IsPlaced (offset : Nat) (cs : List Char) (c : Clause) : Prop :=
  StandsAt offset cs c.span c.shape.name.toList ∧ StandsAt offset cs c.fullSpan c.written

theorem isPlaced_of_readClause? {offset : Nat} {cs rest : List Char} {c : Clause}
    (h : readClause? offset cs = some (c, rest)) : c.IsPlaced offset cs := by
  obtain ⟨hcs, hspan⟩ := readClause?_eq_some h
  have hsize := size_modifierText c.isOpen c.side
  subst hcs
  constructor
  · rw [hspan, ← hsize]
    exact standsAt_append (modifierText c.isOpen c.side) rest
  · have hfull : c.fullSpan = Span.ofSize (offset + size ([] : List Char)) (size c.written) := by
      simp only [Clause.fullSpan, hspan, Clause.written, size_append, hsize, size_nil,
        Span.ofSize, Span.mk.injEq]
      omega
    rw [hfull]
    exact standsAt_append [] rest

theorem stop_of_readClause? {offset : Nat} {cs rest : List Char} {c : Clause}
    (h : readClause? offset cs = some (c, rest)) : c.span.stop = offset + size c.written := by
  rw [(readClause?_eq_some h).2, Span.ofSize_stop, Clause.written, size_append,
    size_modifierText, Nat.add_assoc]

/-- Every clause of a text that reads well is placed in it. -/
theorem isPlaced_of_readClauses {offset : Nat} {cs : List Char} {clauses : List Clause}
    (h : readClauses offset cs = .ok clauses) : ∀ c ∈ clauses, c.IsPlaced offset cs := by
  fun_induction readClauses offset cs generalizing clauses with
  | case1 => cases h; exact fun c hc => absurd hc List.not_mem_nil
  | case2 => cases h
  | case3 offset cs _ clause rest hclause clauses' hrest ih =>
    cases h
    intro c hc
    rcases List.mem_cons.1 hc with rfl | hc
    · exact isPlaced_of_readClause? hclause
    · have hplaced := ih hrest c hc
      rw [stop_of_readClause? hclause] at hplaced
      rw [(readClause?_eq_some hclause).1]
      exact ⟨hplaced.1.append_left, hplaced.2.append_left⟩
  | case4 => cases h

theorem isPlaced_of_read {cs : List Char} {arrow : Arrow} (h : read cs = .ok arrow) :
    ∀ c ∈ arrow.clauses, c.IsPlaced 0 cs := by
  unfold read at h
  split at h
  · cases h
  · split at h
    · cases h
    · next clauses hclauses =>
      split at h
      · cases h
      · cases h
        exact isPlaced_of_readClauses hclauses

/-! ## Faults -/

/-- The character at which no clause starts is a character of the text. -/
theorem hasSpan_of_readClauses_error {offset : Nat} {cs : List Char} {fault : Located Fault}
    (h : readClauses offset cs = .error fault) : HasSpan offset cs fault.span := by
  fun_induction readClauses offset cs with
  | case1 => cases h
  | case2 offset cs =>
    cases h
    exact hasSpan_charSpan_head? offset cs
  | case3 => cases h
  | case4 offset cs _ clause rest hclause fault' hrest ih =>
    cases h
    have hfault := ih hrest
    rw [stop_of_readClause? hclause] at hfault
    rw [(readClause?_eq_some hclause).1]
    exact hfault.append_left

/-- A value that is no arrow type is reported at a place of it. -/
theorem hasSpan_of_read_error {cs : List Char} {fault : Located Fault}
    (h : read cs = .error fault) : HasSpan 0 cs fault.span := by
  unfold read at h
  split at h
  · next hnil =>
    cases h
    rw [hnil]
    exact (standsAt_end 0 []).hasSpan
  · split at h
    · next hclauses =>
      cases h
      exact hasSpan_of_readClauses_error hclauses
    · split at h
      · cases h
        exact hasSpan_whole cs
      · cases h

/-! ## Reported problems -/

/-- A deprecated shape is reported at its name; other problems are reported at some place of
the value. -/
def Problem.IsPlaced (cs : List Char) (p : Located Problem) : Prop :=
  HasSpan 0 cs p.span ∧
    ∀ shape, p.item = .deprecated shape → StandsAt 0 cs p.span shape.name.toList

theorem isPlaced_of_mem_checkClauses {cs : List Char} {deprecations : Bool}
    {clauses : List Clause} (hclauses : ∀ c ∈ clauses, c.IsPlaced 0 cs) :
    ∀ seen, ∀ p ∈ checkClauses deprecations ⟨0, size cs⟩ seen clauses, Problem.IsPlaced cs p := by
  have hwhole : HasSpan 0 cs ⟨0, size cs⟩ := hasSpan_whole cs
  induction clauses with
  | nil => intro seen p hp; cases hp
  | cons c rest ih =>
    have ih := ih fun c' hc' => hclauses c' (List.mem_cons_of_mem c hc')
    intro seen p hp
    rw [checkClauses] at hp
    split at hp
    · rcases List.mem_append.1 hp with hp | hp
      · obtain ⟨problem, hproblem, rfl⟩ := List.mem_map.1 hp
        refine ⟨hwhole, fun d hd => ?_⟩
        rcases mem_modifierProblems.1 hproblem with ⟨half, -, -, rfl⟩ | ⟨-, -, rfl⟩ <;> cases hd
      · exact ih seen p hp
    · next shape hshape =>
      split at hp
      · rcases List.mem_cons.1 hp with rfl | hp
        · have hname := (hclauses c List.mem_cons_self).1
          rw [hshape] at hname
          refine ⟨⟨_, hname⟩, fun d hd => ?_⟩
          cases hd
          exact hname
        · exact ih _ p hp
      · exact ih seen p hp

/-- Everything reported of an arrow type is placed in its value. -/
theorem isPlaced_of_mem_check {cs : List Char} {arrow : Arrow} (h : read cs = .ok arrow)
    {deprecations : Bool} {p : Located Problem}
    (hp : p ∈ check deprecations ⟨0, size cs⟩ arrow) : Problem.IsPlaced cs p := by
  have hclauses := isPlaced_of_read h
  rcases List.mem_append.1 hp with hp | hp
  · exact isPlaced_of_mem_checkClauses hclauses [] p hp
  · unfold checkLast at hp
    split at hp
    · next c hlast =>
      split at hp
      · rw [List.mem_singleton.1 hp]
        have hc := hclauses c (List.mem_of_getLast? hlast)
        exact ⟨⟨_, hc.2⟩, fun d hd => by cases hd⟩
      · cases hp
    · cases hp

end DotAttributes.Arrow
