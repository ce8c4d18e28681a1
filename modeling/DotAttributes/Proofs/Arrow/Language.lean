import DotAttributes.Proofs.Arrow.Spans

/-!
# The language of arrow types

A clause is the name of any shape, or a shape in current use behind modifiers (`IsClause`), and
an arrow type is a text that splits into one to four clauses (`IsSplit`). The reader never looks
for a split: it takes the longest bare name, or else modifiers and the longest name behind them.

That is enough because clauses hardly overlap. Of two different clauses one is the beginning of
the other only if they are `inv` and `invempty` (`IsClause.eq_of_isPrefix`), and where a split
takes the shorter one it has to go on with `empty`. So the reader follows any split, and never
needs more clauses than it (`exists_readClauses`).
-/

namespace DotAttributes

/-- Spans that are not empty cover the offsets from `start` to `stop`, each of them starting
where the one in front of it stops. -/
def Span.Tile (start stop : Nat) : List Span → Prop
  | [] => start = stop
  | s :: rest => s.start = start ∧ s.start < s.stop ∧ Span.Tile s.stop stop rest

end DotAttributes

namespace DotAttributes.Arrow

open Text

/-! ## Clauses -/

/-- The texts that are clauses: the name of a shape by itself, or modifiers in front of the name
of a shape in current use. -/
inductive IsClause : List Char → Prop
  | bare (shape : Shape) : IsClause shape.name.toList
  | modified (isOpen : Bool) (side : Option Side) (shape : Primitive) :
      IsClause (modifierText isOpen side ++ shape.name.toList)

/-- The clauses `words`, one behind the other, make up the text `cs`. -/
structure IsSplit (cs : List Char) (words : List (List Char)) : Prop where
  flatten : words.flatten = cs
  isClause : ∀ word ∈ words, IsClause word

/-- All texts that are clauses. -/
def clauseTexts : List (List Char) :=
  Shape.all.map (fun shape => shape.name.toList) ++
    [false, true].flatMap fun isOpen => [none, some Side.left, some Side.right].flatMap fun side =>
      Primitive.all.map fun shape => modifierText isOpen side ++ shape.name.toList

theorem Primitive.mem_all (shape : Primitive) : shape ∈ Primitive.all := by
  cases shape <;> decide

theorem Shape.mem_all (shape : Shape) : shape ∈ Shape.all := by
  cases shape with
  | primitive shape => cases shape <;> decide
  | deprecated shape => cases shape <;> decide

theorem Shape.primitive_mem_primitives (shape : Primitive) :
    Shape.primitive shape ∈ Shape.primitives :=
  List.mem_map_of_mem (Primitive.mem_all shape)

theorem IsClause.mem_clauseTexts {word : List Char} (h : IsClause word) : word ∈ clauseTexts := by
  cases h with
  | bare shape => exact List.mem_append_left _ (List.mem_map_of_mem (Shape.mem_all shape))
  | modified isOpen side shape =>
    have hopen : isOpen ∈ [false, true] := by cases isOpen <;> decide
    have hside : side ∈ [none, some Side.left, some Side.right] := by
      rcases side with _ | (_ | _) <;> decide
    refine List.mem_append_right _ (List.mem_flatMap.2 ⟨isOpen, hopen, ?_⟩)
    refine List.mem_flatMap.2 ⟨side, hside, ?_⟩
    exact List.mem_map_of_mem (Primitive.mem_all shape)

/-- **Clauses do not overlap**, but for one pair: a clause that is the beginning of another one
is `inv`, and the other one `invempty`. -/
theorem IsClause.eq_of_isPrefix {word longer : List Char} (hword : IsClause word)
    (hlonger : IsClause longer) (h : word <+: longer) :
    word = longer ∨ (word = "inv".toList ∧ longer = "invempty".toList) := by
  have hall : ∀ v ∈ clauseTexts, ∀ w ∈ clauseTexts, v.isPrefixOf w = true →
      v = w ∨ (v = "inv".toList ∧ w = "invempty".toList) := by
    decide +kernel
  exact hall word hword.mem_clauseTexts longer hlonger.mem_clauseTexts
    (List.isPrefixOf_iff_prefix.2 h)

/-! ## The longest name -/

/-- The reading that is kept is as long as any other one. -/
theorem le_of_foldl_longer {l : List (Shape × List Char)} {best : Option (Shape × List Char)}
    {x : Shape × List Char} (h : l.foldl longer best = some x) :
    (∀ b ∈ best, b.1.name.length ≤ x.1.name.length) ∧
      ∀ y ∈ l, y.1.name.length ≤ x.1.name.length := by
  induction l generalizing best with
  | nil =>
    rw [List.foldl_nil] at h
    subst h
    refine ⟨fun b hb => ?_, nofun⟩
    cases hb
    exact Nat.le_refl _
  | cons y l ih =>
    rw [List.foldl_cons] at h
    obtain ⟨hkept, hl⟩ := ih h
    cases best with
    | none =>
      refine ⟨nofun, List.forall_mem_cons.2 ⟨?_, hl⟩⟩
      exact hkept y rfl
    | some b =>
      rw [longer] at hkept
      split at hkept
      · next hle =>
        have hy := hkept y rfl
        refine ⟨fun b' hb => ?_, List.forall_mem_cons.2 ⟨hy, hl⟩⟩
        cases hb
        exact Nat.le_trans hle hy
      · next hlt =>
        have hb := hkept b rfl
        refine ⟨fun b' hb' => ?_, List.forall_mem_cons.2 ⟨by omega, hl⟩⟩
        cases hb'
        exact hb

theorem foldl_longer_isSome (l : List (Shape × List Char)) (x : Shape × List Char) :
    (l.foldl longer (some x)).isSome := by
  induction l generalizing x with
  | nil => rfl
  | cons y l ih =>
    rw [List.foldl_cons, longer]
    split
    · exact ih y
    · exact ih x

/-- Where the text starts with the name of a shape, a name that is as long is found. -/
theorem exists_longest? {shapes : List Shape} {shape : Shape} (hmem : shape ∈ shapes)
    (rest : List Char) :
    ∃ best rest', longest? shapes (shape.name.toList ++ rest) = some (best, rest') ∧
      shape.name.length ≤ best.name.length := by
  have hmatch : (shape, rest) ∈ matching shapes (shape.name.toList ++ rest) := by
    refine List.mem_filterMap.2 ⟨shape, hmem, ?_⟩
    rw [after?_eq_some_iff.2 rfl]
    rfl
  obtain ⟨⟨best, rest'⟩, hbest⟩ : ∃ x, longest? shapes (shape.name.toList ++ rest) = some x := by
    unfold longest?
    cases hmatching : matching shapes (shape.name.toList ++ rest) with
    | nil =>
      rw [hmatching] at hmatch
      cases hmatch
    | cons first others => exact Option.isSome_iff_exists.1 (foldl_longer_isSome others first)
  exact ⟨best, rest', hbest, (le_of_foldl_longer hbest).2 _ hmatch⟩

/-! ## One clause -/

/-- Modifiers are taken off again: no name of a shape in current use starts like one. -/
theorem takeSide_takeOpen (isOpen : Bool) (side : Option Side) (shape : Primitive)
    (rest : List Char) :
    takeSide (takeOpen (modifierText isOpen side ++ (shape.name.toList ++ rest))).2 =
      (side, shape.name.toList ++ rest) := by
  cases isOpen <;> rcases side with _ | (_ | _) <;> cases shape <;> rfl

/-- What is taken off the front of a text is a clause. -/
theorem isClause_of_readClause? {offset : Nat} {cs rest : List Char} {c : Clause}
    (h : readClause? offset cs = some (c, rest)) : IsClause c.written := by
  unfold readClause? at h
  split at h
  · cases h
    exact .bare _
  · obtain ⟨⟨shape, rest'⟩, hlongest, heq⟩ := Option.map_eq_some_iff.1 h
    cases heq
    obtain ⟨primitive, -, rfl⟩ := List.mem_map.1 (longest?_eq_some hlongest).1
    exact .modified _ _ primitive

/-- Where a text starts with a clause, one is found. -/
theorem exists_readClause? (offset : Nat) {word : List Char} (h : IsClause word)
    (rest : List Char) : ∃ c rest', readClause? offset (word ++ rest) = some (c, rest') := by
  unfold readClause?
  cases hbare : longest? Shape.all (word ++ rest) with
  | some found => exact ⟨_, _, rfl⟩
  | none =>
    cases h with
    | bare shape =>
      obtain ⟨best, rest', hbest, -⟩ := exists_longest? (Shape.mem_all shape) rest
      rw [hbest] at hbare
      cases hbare
    | modified isOpen side shape =>
      obtain ⟨best, rest', hbest, -⟩ :=
        exists_longest? (Shape.primitive_mem_primitives shape) rest
      have hbest : longest? Shape.primitives (shape.name.toList ++ rest) = some (best, rest') :=
        hbest
      simp only [List.append_assoc, takeSide_takeOpen, hbest]
      exact ⟨_, _, rfl⟩

/-- Where a text starts with a bare name, the name that is found is as long. -/
theorem le_of_readClause? {offset : Nat} {shape : Shape} {rest rest' : List Char} {c : Clause}
    (h : readClause? offset (shape.name.toList ++ rest) = some (c, rest')) :
    shape.name.length ≤ c.shape.name.length := by
  obtain ⟨best, rest'', hbest, hle⟩ := exists_longest? (Shape.mem_all shape) rest
  unfold readClause? at h
  rw [hbest] at h
  cases h
  exact hle

/-- Where a text starts with a clause, the reader takes this one, unless it is `inv` and `empty`
comes next: then it takes both together as `invempty`. -/
theorem readClause?_of_isClause (offset : Nat) {word : List Char} (hword : IsClause word)
    (rest : List Char) :
    ∃ c rest', readClause? offset (word ++ rest) = some (c, rest') ∧
      (rest = rest' ∨ rest = "empty".toList ++ rest') := by
  obtain ⟨c, rest', hread⟩ := exists_readClause? offset hword rest
  refine ⟨c, rest', hread, ?_⟩
  have hc := isClause_of_readClause? hread
  have hcs : word ++ rest = c.written ++ rest' := (readClause?_eq_some hread).1
  rcases List.append_eq_append_iff.1 hcs with ⟨t, hwritten, hrest⟩ | ⟨t, hword', hrest⟩
  · rcases hword.eq_of_isPrefix hc ⟨t, hwritten.symm⟩ with heq | ⟨hinv, hinvEmpty⟩
    · left
      rw [← heq] at hcs
      exact List.append_cancel_left hcs
    · right
      rw [hinv, hinvEmpty] at hcs
      have hcs : "inv".toList ++ rest = "inv".toList ++ ("empty".toList ++ rest') := hcs
      exact List.append_cancel_left hcs
  · rcases hc.eq_of_isPrefix hword ⟨t, hword'.symm⟩ with heq | ⟨hinv, hinvEmpty⟩
    · left
      rw [heq] at hcs
      exact List.append_cancel_left hcs
    · -- the longest name is taken, so `invempty` is not read as `inv`
      exfalso
      have hshape : word = (Shape.deprecated .invEmpty).name.toList := hinvEmpty
      rw [hshape] at hread
      have hlong : 8 ≤ c.shape.name.length := le_of_readClause? hread
      have hshort : c.shape.name.length ≤ c.written.length := by
        rw [Clause.written, List.length_append, String.length_toList]
        omega
      rw [hinv] at hshort
      have hthree : "inv".toList.length = 3 := rfl
      omega

/-! ## All clauses -/

theorem IsSplit.cons_iff {cs word : List Char} {words : List (List Char)} :
    IsSplit cs (word :: words) ↔
      ∃ rest, cs = word ++ rest ∧ IsClause word ∧ IsSplit rest words := by
  constructor
  · rintro ⟨rfl, hwords⟩
    obtain ⟨hword, hwords⟩ := List.forall_mem_cons.1 hwords
    exact ⟨words.flatten, rfl, hword, rfl, hwords⟩
  · rintro ⟨rest, rfl, hword, rfl, hwords⟩
    exact ⟨rfl, List.forall_mem_cons.2 ⟨hword, hwords⟩⟩

/-- What follows `inv` in a split that goes on with `empty` also splits without it. -/
theorem IsSplit.of_empty {rest : List Char} {words : List (List Char)}
    (h : IsSplit ("empty".toList ++ rest) words) :
    ∃ others, IsSplit rest others ∧ others.length ≤ words.length := by
  cases words with
  | nil => exact absurd h.flatten.symm (by simp)
  | cons word words =>
    obtain ⟨rest', hcs, hword, hrest⟩ := IsSplit.cons_iff.1 h
    have hempty : IsClause "empty".toList := .bare (.deprecated .emptyHead)
    have heq : word = "empty".toList := by
      rcases List.prefix_or_prefix_of_prefix (List.prefix_append _ _)
        (hcs ▸ List.prefix_append "empty".toList rest) with hprefix | hprefix
      · rcases hword.eq_of_isPrefix hempty hprefix with heq | ⟨-, hinvEmpty⟩
        · exact heq
        · exact absurd hinvEmpty (by decide)
      · rcases hempty.eq_of_isPrefix hword hprefix with heq | ⟨hinv, -⟩
        · exact heq.symm
        · exact absurd hinv (by decide)
    rw [heq] at hcs
    rw [List.append_cancel_left hcs]
    exact ⟨words, hrest, Nat.le_succ _⟩

/-- Behind the clause that is taken off the front of a text, the text splits into fewer clauses
than the whole one. -/
theorem IsSplit.exists_rest {offset : Nat} {cs rest : List Char} {c : Clause}
    {words : List (List Char)} (h : IsSplit cs words) (hne : cs ≠ [])
    (hread : readClause? offset cs = some (c, rest)) :
    ∃ others, IsSplit rest others ∧ others.length < words.length := by
  cases words with
  | nil => exact absurd h.flatten.symm hne
  | cons word words =>
    obtain ⟨tail, rfl, hword, htail⟩ := IsSplit.cons_iff.1 h
    obtain ⟨c', rest', hread', hrest⟩ := readClause?_of_isClause offset hword tail
    rw [hread] at hread'
    cases hread'
    rcases hrest with rfl | rfl
    · exact ⟨words, htail, Nat.lt_succ_self _⟩
    · obtain ⟨others, hothers, hle⟩ := htail.of_empty
      exact ⟨others, hothers, Nat.lt_succ_of_le hle⟩

/-- **Every split is followed.** A text that splits into clauses is read, and in no more clauses
than the split has. -/
theorem exists_readClauses (offset : Nat) {cs : List Char} {words : List (List Char)}
    (h : IsSplit cs words) :
    ∃ read, readClauses offset cs = .ok read ∧ read.length ≤ words.length := by
  fun_induction readClauses offset cs generalizing words with
  | case1 => exact ⟨[], rfl, Nat.zero_le _⟩
  | case2 offset cs hne hnone =>
    cases words with
    | nil => exact absurd h.flatten.symm hne
    | cons word words =>
      obtain ⟨rest, rfl, hword, -⟩ := IsSplit.cons_iff.1 h
      obtain ⟨c, rest', hread⟩ := exists_readClause? offset hword rest
      rw [hread] at hnone
      cases hnone
  | case3 offset cs hne clause rest hread clauses hrest ih =>
    obtain ⟨others, hothers, hlt⟩ := h.exists_rest hne hread
    obtain ⟨read, hread', hle⟩ := ih hothers
    rw [hrest] at hread'
    cases hread'
    refine ⟨clause :: clauses, rfl, ?_⟩
    rw [List.length_cons]
    omega
  | case4 offset cs hne clause rest hread fault hrest ih =>
    obtain ⟨others, hothers, -⟩ := h.exists_rest hne hread
    obtain ⟨read, hread', -⟩ := ih hothers
    rw [hrest] at hread'
    cases hread'

/-- What has been read is written as it was, clause by clause. -/
theorem isSplit_of_readClauses {offset : Nat} {cs : List Char} {read : List Clause}
    (h : readClauses offset cs = .ok read) : IsSplit cs (read.map Clause.written) := by
  fun_induction readClauses offset cs generalizing read with
  | case1 =>
    cases h
    exact ⟨rfl, List.forall_mem_nil _⟩
  | case2 => cases h
  | case3 offset cs _ clause rest hclause clauses hrest ih =>
    cases h
    exact IsSplit.cons_iff.2
      ⟨rest, (readClause?_eq_some hclause).1, isClause_of_readClause? hclause, ih hrest⟩
  | case4 => cases h

/-- No clause is empty. -/
theorem IsClause.ne_nil {word : List Char} (h : IsClause word) : word ≠ [] := by
  cases h with
  | bare shape => exact Shape.name_ne_nil shape
  | modified isOpen side shape =>
    intro hnil
    exact Shape.name_ne_nil (.primitive shape) (List.append_eq_nil_iff.1 hnil).2

/-- The clauses that have been read stand side by side. -/
theorem tile_of_readClauses {offset : Nat} {cs : List Char} {read : List Clause}
    (h : readClauses offset cs = .ok read) :
    Span.Tile offset (offset + size cs) (read.map Clause.fullSpan) := by
  fun_induction readClauses offset cs generalizing read with
  | case1 =>
    cases h
    rfl
  | case2 => cases h
  | case3 offset cs _ clause rest hclause clauses hrest ih =>
    cases h
    have hstop : clause.fullSpan.stop = offset + size clause.written :=
      stop_of_readClause? hclause
    have hstart : clause.fullSpan.start = offset := by
      show clause.span.start - modifierSize clause.isOpen clause.side = offset
      rw [(readClause?_eq_some hclause).2, Span.ofSize_start, Nat.add_sub_cancel]
    have hpos : size clause.written ≠ 0 :=
      fun hzero => (isClause_of_readClause? hclause).ne_nil (size_eq_zero_iff.1 hzero)
    refine ⟨hstart, by omega, ?_⟩
    have hsize : offset + size cs = clause.span.stop + size rest := by
      rw [(readClause?_eq_some hclause).1, size_append, stop_of_readClause? hclause, Nat.add_assoc]
    rw [hsize]
    exact ih hrest
  | case4 => cases h

/-! ## Arrow types -/

/-- What is read is at least one clause and at most four. -/
theorem read_eq_ok_iff {cs : List Char} {arrow : Arrow} :
    read cs = .ok arrow ↔
      cs ≠ [] ∧ readClauses 0 cs = .ok arrow.clauses ∧ arrow.clauses.length ≤ maxClauses := by
  unfold read
  constructor
  · intro h
    split at h
    · cases h
    · next hne =>
      split at h
      · cases h
      · next clauses hclauses =>
        split at h
        · cases h
        · next hle =>
          cases h
          exact ⟨hne, hclauses, Nat.le_of_not_lt hle⟩
  · rintro ⟨hne, hclauses, hle⟩
    rw [if_neg hne, hclauses]
    exact if_neg (Nat.not_lt.2 hle)

/-- **Arrow types.** Exactly the texts are read that split into one to four clauses. What has
been read, written out clause by clause, is the text again; the places of the clauses, modifiers
included, lie side by side over the whole text, each with its clause; and no other split of the
text has fewer clauses. -/
theorem read_iff_isSplit (cs : List Char) :
    ((∃ arrow, read cs = .ok arrow) ↔
        ∃ words, IsSplit cs words ∧ 1 ≤ words.length ∧ words.length ≤ 4) ∧
      ∀ arrow, read cs = .ok arrow →
        IsSplit cs (arrow.clauses.map Clause.written) ∧
          Span.Tile 0 (size cs) (arrow.clauses.map Clause.fullSpan) ∧
          (∀ c ∈ arrow.clauses, slice? cs c.fullSpan = some c.written) ∧
          ∀ words, IsSplit cs words → arrow.clauses.length ≤ words.length := by
  refine ⟨⟨?_, ?_⟩, ?_⟩
  · rintro ⟨arrow, hread⟩
    obtain ⟨hne, hclauses, hle⟩ := read_eq_ok_iff.1 hread
    have hsplit := isSplit_of_readClauses hclauses
    have hpos : arrow.clauses ≠ [] := by
      intro hnil
      rw [hnil] at hsplit
      exact hne hsplit.flatten.symm
    refine ⟨_, hsplit, ?_, ?_⟩
    · rw [List.length_map]
      exact List.length_pos_iff.2 hpos
    · rw [List.length_map]
      exact hle
  · rintro ⟨words, hsplit, hpos, hle⟩
    obtain ⟨clauses, hclauses, hlength⟩ := exists_readClauses 0 hsplit
    have hne : cs ≠ [] := by
      rintro rfl
      obtain ⟨word, hword⟩ := List.exists_mem_of_length_pos hpos
      exact (hsplit.isClause word hword).ne_nil (List.flatten_eq_nil_iff.1 hsplit.flatten word hword)
    exact ⟨⟨clauses⟩, read_eq_ok_iff.2 ⟨hne, hclauses, Nat.le_trans hlength hle⟩⟩
  · intro arrow hread
    obtain ⟨-, hclauses, -⟩ := read_eq_ok_iff.1 hread
    have htile := tile_of_readClauses hclauses
    rw [Nat.zero_add] at htile
    refine ⟨isSplit_of_readClauses hclauses, htile, ?_, ?_⟩
    · exact fun c hc => slice?_eq_some_iff.2 (isPlaced_of_read hread c hc).2
    · intro words hsplit
      obtain ⟨clauses, hclauses', hle⟩ := exists_readClauses 0 hsplit
      rw [hclauses] at hclauses'
      cases hclauses'
      exact hle

/-- A text with a split of four clauses that is read in three: `inv` and `empty` are taken
together. -/
theorem read_iff_isSplit_invEmpty :
    ∃ arrow, read "oinvlteeinvempty".toList = .ok arrow ∧
      IsSplit "oinvlteeinvempty".toList (arrow.clauses.map Clause.written) ∧
      Span.Tile 0 16 (arrow.clauses.map Clause.fullSpan) ∧ arrow.clauses.length ≤ 3 := by
  have hinv := IsClause.bare (.primitive .inv)
  have hempty := IsClause.bare (.deprecated .emptyHead)
  have hoinv := IsClause.modified true none .inv
  have hltee := IsClause.modified false (some .left) .tee
  have hfour : IsSplit "oinvlteeinvempty".toList
      ["oinv".toList, "ltee".toList, "inv".toList, "empty".toList] := by
    refine ⟨rfl, ?_⟩
    simp only [List.forall_mem_cons]
    exact ⟨hoinv, hltee, hinv, hempty, nofun⟩
  have hthree : IsSplit "oinvlteeinvempty".toList
      ["oinv".toList, "ltee".toList, "invempty".toList] := by
    refine ⟨rfl, ?_⟩
    simp only [List.forall_mem_cons]
    exact ⟨hoinv, hltee, .bare (.deprecated .invEmpty), nofun⟩
  obtain ⟨hreads, hprops⟩ := read_iff_isSplit "oinvlteeinvempty".toList
  obtain ⟨arrow, hread⟩ := hreads.2 ⟨_, hfour, by decide, by decide⟩
  obtain ⟨hsplit, htile, -, hleast⟩ := hprops arrow hread
  exact ⟨arrow, hread, hsplit, htile, hleast _ hthree⟩

end DotAttributes.Arrow
