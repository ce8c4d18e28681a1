import DotAttributes.Proofs.Slice
import DotAttributes.Style.Check

/-!
# Where the items of a style list stand

The reader of style lists goes over separators, takes a name, and goes over the arguments
behind it (`readArguments_append`). So the name of every item that it reads stands at its
place in the value (`standsAt_of_readItems`), and every problem is reported at such a name.
-/

namespace DotAttributes.Style

open Text

/-- Arguments are taken off the front of the text, and their end is where the rest starts. -/
theorem readArguments_append {offset : Nat} {cs : List Char} {r : ArgumentsRead}
    (h : readArguments offset cs = .ok r) :
    ∃ taken, cs = taken ++ r.rest ∧ r.stop = offset + size taken := by
  unfold readArguments at h
  split at h
  · next body =>
    split at h
    · cases h
    · next inner rest hsplit =>
      split at h
      · cases h
        refine ⟨'(' :: inner ++ [')'], ?_, ?_⟩
        · rw [← splitFirst?_append hsplit]
          simp
        · have hopen : ('(' : Char).utf8Size = 1 := by decide
          have hclose : (')' : Char).utf8Size = 1 := by decide
          simp only [size_append, size_cons, size_nil, hopen, hclose]
          omega
      · cases h
  · cases h
    exact ⟨[], rfl, rfl⟩

/-- The name of every item stands at its place. -/
theorem standsAt_of_readItems {offset : Nat} {cs : List Char} {items : List Item}
    (h : readItems offset cs = .ok items) :
    ∀ item ∈ items, StandsAt offset cs item.name.span item.name.item := by
  fun_induction readItems offset cs generalizing items with
  | case1 => cases h; exact fun item hitem => absurd hitem List.not_mem_nil
  | case2 => cases h
  | case3 offset cs start c body hd hname name read hargs hsep items' hrest =>
    rename_i ih
    cases h
    have hcs : cs = cs.takeWhile isSeparator ++ (c :: body) := by
      rw [← hd, List.takeWhile_append_dropWhile]
    have hbody : c :: body = name ++ body.dropWhile isNameChar := by
      rw [List.cons_append, List.takeWhile_append_dropWhile]
    obtain ⟨taken, htaken, hstop⟩ := readArguments_append hargs
    intro item hitem
    rcases List.mem_cons.1 hitem with rfl | hitem
    · rw [hcs, hbody, ← List.append_assoc]
      exact standsAt_append (cs.takeWhile isSeparator) (body.dropWhile isNameChar)
    · have hitem := ih hrest item hitem
      rw [hcs, hbody, htaken]
      refine StandsAt.append_left (StandsAt.append_left (StandsAt.append_left ?_))
      rwa [hstop] at hitem
  | case4 => cases h
  | case5 => cases h
  | case6 => cases h

/-! ## Faults -/

theorem hasSpan_noItemAt (offset : Nat) (cs : List Char) :
    HasSpan offset cs (noItemAt offset cs).span := hasSpan_charSpan_head? offset cs

/-- Arguments that cannot be read are reported where another parenthesis opens, or at the end. -/
theorem hasSpan_of_readArguments_error {offset : Nat} {cs : List Char} {fault : Located Fault}
    (h : readArguments offset cs = .error fault) : HasSpan offset cs fault.span := by
  unfold readArguments at h
  split at h
  · next body =>
    split at h
    · cases h
      exact (standsAt_end offset ('(' :: body)).hasSpan
    · next inner rest hsplit =>
      split at h
      · cases h
      · next c tail hnested =>
        cases h
        have hinner := List.takeWhile_append_dropWhile (p := (· != '(')) (l := inner)
        rw [hnested] at hinner
        have hcs : ('(' :: inner.takeWhile (· != '(')) ++ c :: (tail ++ ')' :: rest) =
            '(' :: body := by
          rw [← splitFirst?_append hsplit, List.cons_append, ← List.cons_append (a := c),
            ← List.append_assoc, hinner]
        have hopen : ('(' : Char).utf8Size = 1 := by decide
        rw [← hcs, Nat.add_assoc, ← hopen, ← size_cons]
        exact hasSpan_charSpan_append _ c _
  · cases h

/-- Items that cannot be read are reported at a place of the text. -/
theorem hasSpan_of_readItems_error {offset : Nat} {cs : List Char} {fault : Located Fault}
    (h : readItems offset cs = .error fault) : HasSpan offset cs fault.span := by
  fun_induction readItems offset cs with
  | case1 => cases h
  | case2 offset cs start c body hd hname name fault' hargs =>
    cases h
    rw [← List.takeWhile_append_dropWhile (p := isSeparator) (l := cs), hd,
      ← List.takeWhile_append_dropWhile (p := isNameChar) (l := body), ← List.cons_append]
    exact (hasSpan_of_readArguments_error hargs).append_left.append_left
  | case3 => cases h
  | case4 offset cs start c body hd hname name read hargs hsep fault' hrest ih =>
    cases h
    obtain ⟨taken, htaken, hstop⟩ := readArguments_append hargs
    have hfault := ih hrest
    rw [hstop] at hfault
    rw [← List.takeWhile_append_dropWhile (p := isSeparator) (l := cs), hd,
      ← List.takeWhile_append_dropWhile (p := isNameChar) (l := body), ← List.cons_append, htaken]
    exact hfault.append_left.append_left.append_left
  | case5 offset cs start c body hd hname name read hargs hsep =>
    cases h
    obtain ⟨taken, htaken, hstop⟩ := readArguments_append hargs
    have hfault := hasSpan_noItemAt read.stop read.rest
    rw [hstop] at hfault
    rw [← List.takeWhile_append_dropWhile (p := isSeparator) (l := cs), hd,
      ← List.takeWhile_append_dropWhile (p := isNameChar) (l := body), ← List.cons_append, htaken,
      hstop]
    exact hfault.append_left.append_left.append_left
  | case6 offset cs start c body hd hname =>
    cases h
    rw [← List.takeWhile_append_dropWhile (p := isSeparator) (l := cs), hd]
    exact (hasSpan_noItemAt start (c :: body)).append_left

/-- A value that is no style list is reported at a place of it. -/
theorem hasSpan_of_read_error {cs : List Char} {fault : Located Fault}
    (h : read cs = .error fault) : HasSpan 0 cs fault.span := hasSpan_of_readItems_error h

/-! ## Reported problems -/

/-- A problem is reported at the name of an item: at `setlinewidth` if that is deprecated, at
`striped` if the shape has no stripes. -/
def Problem.IsPlaced (cs : List Char) (p : Located Problem) : Prop :=
  HasSpan 0 cs p.span ∧
    (p.item = .deprecatedWidth → StandsAt 0 cs p.span widthItem.toList) ∧
    (p.item = .stripedShape → StandsAt 0 cs p.span stripedItem.toList)

/-- Everything reported of a style list is placed in its value. -/
theorem isPlaced_of_mem_check {cs : List Char} {items : List Item} (h : read cs = .ok items)
    {deprecations : Bool} {allowed : List String} {stripes : Bool} {p : Located Problem}
    (hp : p ∈ check deprecations allowed stripes items) : Problem.IsPlaced cs p := by
  obtain ⟨item, hitem, hp⟩ := List.mem_flatMap.1 hp
  have hname := standsAt_of_readItems h item hitem
  simp only [checkItem] at hp
  split at hp
  · next hwidth =>
    split at hp
    · rw [List.mem_singleton.1 hp]
      refine ⟨⟨_, hname⟩, fun _ => ?_, nofun⟩
      rwa [← hwidth, String.toList_ofList]
    · cases hp
  · split at hp
    · rw [List.mem_singleton.1 hp]
      exact ⟨⟨_, hname⟩, nofun, nofun⟩
    · split at hp
      · next hstriped =>
        rw [List.mem_singleton.1 hp]
        refine ⟨⟨_, hname⟩, nofun, fun _ => ?_⟩
        rwa [← hstriped.1, String.toList_ofList]
      · cases hp

/-! ## Problems one after the other -/

/-- The names of the items are not empty and follow each other. -/
theorem successive_of_readItems {offset : Nat} {cs : List Char} {items : List Item}
    (h : readItems offset cs = .ok items) : Successive offset (items.map Item.name) := by
  fun_induction readItems offset cs generalizing items with
  | case1 =>
    cases h
    exact ⟨nofun, .nil⟩
  | case2 => cases h
  | case3 offset cs start c body hd hname name read hargs hsep items' hrest =>
    rename_i ih
    cases h
    obtain ⟨hsolid, hpairwise⟩ := ih hrest
    obtain ⟨taken, -, hstop⟩ := readArguments_append hargs
    have hpos : 0 < size name := Nat.lt_of_lt_of_le (Char.utf8Size_pos c) (Nat.le_add_right _ _)
    have hstart : offset ≤ start := Nat.le_add_right _ _
    constructor
    · refine List.forall_mem_cons.2 ⟨⟨hstart, ?_⟩, ?_⟩
      · show start < start + size name
        omega
      · intro x hx
        obtain ⟨hle, hlt⟩ := hsolid x hx
        exact ⟨by omega, hlt⟩
    · refine .cons ?_ hpairwise
      intro x hx
      have hle := (hsolid x hx).1
      show start + size name ≤ x.span.start
      omega
  | case4 => cases h
  | case5 => cases h
  | case6 => cases h

theorem span_of_mem_checkItem {deprecations : Bool} {allowed : List String} {stripes : Bool}
    {item : Item} {p : Located Problem} (h : p ∈ checkItem deprecations allowed stripes item) :
    p.span = item.name.span := by
  simp only [checkItem] at h
  split at h
  · split at h
    · rw [List.mem_singleton.1 h]
    · cases h
  · split at h
    · rw [List.mem_singleton.1 h]
    · split at h
      · rw [List.mem_singleton.1 h]
      · cases h

theorem length_checkItem_le (deprecations : Bool) (allowed : List String) (stripes : Bool)
    (item : Item) : (checkItem deprecations allowed stripes item).length ≤ 1 := by
  simp only [checkItem]
  repeat' split
  all_goals simp

/-- The problems of a style list follow each other. -/
theorem successive_check {cs : List Char} {items : List Item} (h : read cs = .ok items)
    {deprecations : Bool} {allowed : List String} {stripes : Bool} :
    Successive 0 (check deprecations allowed stripes items) := by
  obtain ⟨hsolid, hpairwise⟩ := successive_of_readItems h
  rw [List.pairwise_map] at hpairwise
  constructor
  · intro p hp
    obtain ⟨item, hitem, hp⟩ := List.mem_flatMap.1 hp
    rw [span_of_mem_checkItem hp]
    exact hsolid item.name (List.mem_map_of_mem hitem)
  · refine List.pairwise_flatMap.2 ⟨fun item _ => ?_, hpairwise.imp fun hle p hp q hq => ?_⟩
    · exact pairwise_of_length_le_one (length_checkItem_le _ _ _ item)
    · rwa [span_of_mem_checkItem hp, span_of_mem_checkItem hq]

end DotAttributes.Style
