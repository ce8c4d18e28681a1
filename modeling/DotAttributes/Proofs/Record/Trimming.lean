import DotAttributes.Proofs.Record.Distinct
import Mathlib.Data.List.Induction

/-!
# Trimming and escapes

The parts of a record label are single characters, a backslash together with the character behind
it, and a backslash at the very end. The text of a leaf and the name of a port are trimmed. Trimming
takes characters away, not parts: if the last part but for blanks is an escaped blank, the blank is
taken away and its backslash stays.

So a trimmed text is a run of whole parts, or it is cut at an escaped blank behind which nothing but
blanks stand before the next mark, and never both (`isCut_iff_not_isWhole`). The reader adds nothing
to it: every trimmed text is one token of text, trimmed (`isRead_of_read`), and such a token is a
run of parts up to the next mark (`Joins.exists_run`).
-/

namespace DotAttributes.Record

open Text

/-! ## Whole parts -/

/-- Whether a part is a blank that is not escaped. -/
def Atom.isBlank : Atom → Bool
  | plain c => Text.isBlank c
  | mark _ | escaped _ | backslash => false

/-- The place of a text of the given size behind the parts in front of it. -/
def spanBehind (before : List Atom) (text : List Char) : Span :=
  Span.ofSize (size (before.flatMap Atom.text)) (size text)

/-- A text is a run of whole parts of a label, at its place. -/
def IsWhole (cs : List Char) (text : Located (List Char)) : Prop :=
  ∃ before run after, atoms cs = before ++ (run ++ after) ∧
    text = ⟨run.flatMap Atom.text, spanBehind before (run.flatMap Atom.text)⟩

/-- A text is a run of whole parts and the backslash of an escaped blank, at its place. Behind the
escaped blank there are only blanks up to the next mark or the end of the label. -/
def IsCut (cs : List Char) (text : Located (List Char)) : Prop :=
  ∃ before run c blanks after, atoms cs = before ++ (run ++ .escaped c :: (blanks ++ after)) ∧
    Text.isBlank c = true ∧ blanks.all Atom.isBlank = true ∧
    (∀ next ∈ after.head?, next.kind.isText = false) ∧
    text = ⟨run.flatMap Atom.text ++ ['\\'],
      spanBehind before (run.flatMap Atom.text ++ ['\\'])⟩

theorem flatMap_text_eq_nil_iff {parts : List Atom} :
    parts.flatMap Atom.text = [] ↔ parts = [] := by
  cases parts with
  | nil => simp
  | cons atom rest => simp [atom.text_ne_nil]

/-- Of two beginnings of a label, the shorter one is the beginning of the other. -/
theorem exists_append_of_size_le_size {front front' back back' : List Atom}
    (h : front ++ back = front' ++ back')
    (hle : size (front.flatMap Atom.text) ≤ size (front'.flatMap Atom.text)) :
    ∃ between, front' = front ++ between ∧ back = between ++ back' := by
  rcases List.append_eq_append_iff.1 h with ⟨between, hfront, hback⟩ | ⟨between, hfront, hback⟩
  · exact ⟨between, hfront, hback⟩
  · -- the first one is not shorter, so there is nothing between their ends
    rw [hfront, List.flatMap_append, size_append] at hle
    have hnil : between = [] :=
      flatMap_text_eq_nil_iff.1 (size_eq_zero_iff.1 (by omega))
    subst hnil
    exact ⟨[], by simpa using hfront.symm, by simpa using hback.symm⟩

/-- A run of whole parts does not end between a backslash and the character behind it. -/
theorem not_isWhole_of_isCut {cs : List Char} {text : Located (List Char)} (h : IsCut cs text) :
    ¬ IsWhole cs text := by
  rintro ⟨before', run', after', hatoms', htext'⟩
  obtain ⟨before, run, c, blanks, after, hatoms, -, -, -, htext⟩ := h
  rw [htext, Located.mk.injEq, spanBehind, spanBehind, Span.ofSize, Span.ofSize,
    Span.mk.injEq] at htext'
  obtain ⟨hitem, hstart, -⟩ := htext'
  -- both runs start at the same part, and the whole one is a byte longer
  obtain ⟨between, hbefore, hrest⟩ := exists_append_of_size_le_size
    (hatoms.symm.trans hatoms') (Nat.le_of_eq hstart)
  have hnil : between = [] := by
    rw [hbefore, List.flatMap_append, size_append] at hstart
    exact flatMap_text_eq_nil_iff.1 (size_eq_zero_iff.1 (by omega))
  rw [hnil, List.nil_append] at hrest
  have hsize : size (run.flatMap Atom.text) + 1 = size (run'.flatMap Atom.text) := by
    rw [← hitem, size_append]
    rfl
  obtain ⟨more, hrun, hmore⟩ := exists_append_of_size_le_size hrest (by omega)
  rw [hrun, List.flatMap_append, size_append] at hsize
  cases more with
  | nil => simp at hsize
  | cons atom more =>
    rw [List.cons_append, List.cons.injEq] at hmore
    obtain ⟨rfl, -⟩ := hmore
    have hpos := Char.utf8Size_pos c
    have hescaped : size (Atom.escaped c).text = 1 + c.utf8Size := rfl
    rw [List.flatMap_cons, size_append, hescaped] at hsize
    omega

/-! ## Trimming a run of parts -/

/-- At its beginning, a run of parts is trimmed to whole parts. -/
theorem trimStart_flatMap_text (run : List Atom) :
    (run.flatMap Atom.text).takeWhile Text.isBlank =
        (run.takeWhile Atom.isBlank).flatMap Atom.text ∧
      trimStart (run.flatMap Atom.text) = (run.dropWhile Atom.isBlank).flatMap Atom.text := by
  induction run with
  | nil => exact ⟨rfl, rfl⟩
  | cons atom run ih =>
    cases atom with
    | plain c =>
      unfold trimStart at ih ⊢
      by_cases hc : Text.isBlank c = true
      · simp [Atom.text, Atom.isBlank, hc, ih]
      · simp [Atom.text, Atom.isBlank, hc]
    | mark m => cases m <;> exact ⟨rfl, rfl⟩
    | escaped c => exact ⟨rfl, rfl⟩
    | backslash => exact ⟨rfl, rfl⟩

theorem trimEnd_concat (cs : List Char) (c : Char) :
    trimEnd (cs ++ [c]) = if Text.isBlank c then trimEnd cs else cs ++ [c] := by
  rw [trimEnd, List.reverse_append, List.reverse_singleton, List.singleton_append,
    List.dropWhile_cons]
  split
  · rfl
  · simp

/-- At its end, a run of parts is trimmed to whole parts, or cut at an escaped blank. -/
theorem trimEnd_flatMap_text (run : List Atom) :
    (∃ body blanks, run = body ++ blanks ∧ blanks.all Atom.isBlank = true ∧
        trimEnd (run.flatMap Atom.text) = body.flatMap Atom.text) ∨
      ∃ body c blanks, run = body ++ .escaped c :: blanks ∧ Text.isBlank c = true ∧
        blanks.all Atom.isBlank = true ∧
        trimEnd (run.flatMap Atom.text) = body.flatMap Atom.text ++ ['\\'] := by
  induction run using List.reverseRecOn with
  | nil => exact Or.inl ⟨[], [], rfl, rfl, rfl⟩
  | append_singleton run atom ih =>
    -- a last part that does not end with a blank stays, and everything in front of it
    have hkeep (front : List Char) (c : Char) (hatom : atom.text = front ++ [c])
        (hc : Text.isBlank c = false) : ∃ body blanks, run ++ [atom] = body ++ blanks ∧
          blanks.all Atom.isBlank = true ∧
          trimEnd ((run ++ [atom]).flatMap Atom.text) = body.flatMap Atom.text := by
      refine ⟨run ++ [atom], [], (List.append_nil _).symm, rfl, ?_⟩
      rw [List.flatMap_append, List.flatMap_singleton, hatom, ← List.append_assoc,
        trimEnd_concat, if_neg (by simp [hc])]
    cases atom with
    | mark m => exact Or.inl (hkeep [] m.char rfl (by cases m <;> rfl))
    | backslash => exact Or.inl (hkeep [] '\\' rfl rfl)
    | escaped c =>
      by_cases hc : Text.isBlank c = true
      · refine Or.inr ⟨run, c, [], rfl, hc, rfl, ?_⟩
        rw [List.flatMap_append, List.flatMap_singleton,
          show (Atom.escaped c).text = ['\\'] ++ [c] from rfl, ← List.append_assoc,
          trimEnd_concat, if_pos hc, trimEnd_concat, if_neg (by decide)]
      · exact Or.inl (hkeep ['\\'] c rfl (Bool.eq_false_iff.2 hc))
    | plain c =>
      by_cases hc : Text.isBlank c = true
      · have hend : trimEnd ((run ++ [Atom.plain c]).flatMap Atom.text) =
            trimEnd (run.flatMap Atom.text) := by
          rw [List.flatMap_append, List.flatMap_singleton, show (Atom.plain c).text = [c] from rfl,
            trimEnd_concat, if_pos hc]
        rw [hend]
        rcases ih with ⟨body, blanks, hrun, hblanks, htext⟩ |
          ⟨body, d, blanks, hrun, hd, hblanks, htext⟩
        · refine Or.inl ⟨body, blanks ++ [.plain c], ?_, ?_, htext⟩
          · rw [hrun, List.append_assoc]
          · simp [hblanks, Atom.isBlank, hc]
        · refine Or.inr ⟨body, d, blanks ++ [.plain c], ?_, hd, ?_, htext⟩
          · rw [hrun, List.append_assoc, List.cons_append]
          · simp [hblanks, Atom.isBlank, hc]
      · exact Or.inl (hkeep [] c rfl (Bool.eq_false_iff.2 hc))

/-- A run of parts that ends in front of a mark, or at the end of the label, is trimmed to whole
parts, or cut. -/
theorem isWhole_or_isCut_trimAt {cs : List Char} {before run after : List Atom}
    (hatoms : atoms cs = before ++ (run ++ after))
    (hafter : ∀ next ∈ after.head?, next.kind.isText = false) :
    IsWhole cs (trimAt (size (before.flatMap Atom.text)) (run.flatMap Atom.text)) ∨
      IsCut cs (trimAt (size (before.flatMap Atom.text)) (run.flatMap Atom.text)) := by
  let lead := run.takeWhile Atom.isBlank
  have hrun : run = lead ++ run.dropWhile Atom.isBlank := List.takeWhile_append_dropWhile.symm
  have hspan (text : List Char) : Span.ofSize (size (before.flatMap Atom.text) +
      size (lead.flatMap Atom.text)) (size text) = spanBehind (before ++ lead) text := by
    rw [spanBehind, List.flatMap_append, size_append]
  obtain ⟨hlead, hstart⟩ := trimStart_flatMap_text run
  rw [trimAt, hlead, trim, hstart]
  rcases trimEnd_flatMap_text (run.dropWhile Atom.isBlank) with
    ⟨body, blanks, hbody, -, htext⟩ | ⟨body, c, blanks, hbody, hc, hblanks, htext⟩
  · refine Or.inl ⟨before ++ lead, body, blanks ++ after, ?_, ?_⟩
    · rw [hatoms, hrun, hbody]
      simp only [List.append_assoc]
    · rw [htext, hspan]
  · refine Or.inr ⟨before ++ lead, body, c, blanks, after, ?_, hc, hblanks, hafter, ?_⟩
    · rw [hatoms, hrun, hbody]
      simp only [List.append_assoc, List.cons_append]
    · rw [htext, hspan]

/-! ## Tokens as runs of parts -/

/-- Tokens of parts: each token is a run of parts, and one of text reaches to the next mark. -/
inductive Joins : Nat → List Atom → List Token → Prop
  | nil {offset : Nat} : Joins offset [] []
  | cons {offset : Nat} (run : List Atom) (token : Token) {after : List Atom} {rest : List Token}
      (run_ne_nil : run ≠ []) (text_eq : token.text = run.flatMap Atom.text)
      (start_eq : token.span.start = offset)
      (isText_eq : ∀ atom ∈ run, atom.kind.isText = token.kind.isText)
      (maximal : token.kind.isText = true → ∀ next ∈ after.head?, next.kind.isText = false)
      (rest_joins : Joins (offset + size token.text) after rest) :
      Joins offset (run ++ after) (token :: rest)

theorem joins_joinAtom {offset : Nat} {atom : Atom} {parts : List Atom} {tokens : List Token}
    (h : Joins (offset + size atom.text) parts tokens) :
    Joins offset (atom :: parts) (joinAtom offset atom tokens) := by
  unfold joinAtom
  cases h with
  | nil =>
    exact .cons [atom] ⟨atom.kind, atom.text, _⟩ (List.cons_ne_nil _ _) (by simp) rfl (by simp)
      (fun _ => nofun) .nil
  | @cons _ run next after rest hne htext hstart hkind hmaximal hrest =>
    simp only
    split
    · next hboth =>
      rw [Bool.and_eq_true] at hboth
      have hall : ∀ part ∈ atom :: run, part.kind.isText = true := by
        refine List.forall_mem_cons.2 ⟨hboth.1, fun part hpart => ?_⟩
        rw [hkind part hpart, hboth.2]
      refine .cons (atom :: run) ⟨.text, atom.text ++ next.text, _⟩ (List.cons_ne_nil _ _) ?_ rfl
        hall (fun _ => hmaximal hboth.2) ?_
      · rw [htext, List.flatMap_cons]
      · rwa [size_append, ← Nat.add_assoc]
    · next hboth =>
      refine .cons [atom] ⟨atom.kind, atom.text, _⟩ (List.cons_ne_nil _ _) (by simp) rfl (by simp)
        ?_ (.cons run next hne htext hstart hkind hmaximal hrest)
      intro hatom part hpart
      obtain ⟨first, run, rfl⟩ := List.exists_cons_of_ne_nil hne
      have hfirst : first = part := Option.some.inj hpart
      rw [← hfirst, hkind first List.mem_cons_self, Bool.eq_false_iff]
      intro hnext
      exact hboth (by rw [hatom, hnext]; rfl)

theorem joins_joinAtoms (offset : Nat) (parts : List Atom) :
    Joins offset parts (joinAtoms offset parts) := by
  induction parts generalizing offset with
  | nil => exact .nil
  | cons atom parts ih => exact joins_joinAtom (ih _)

/-- A token of text is a run of parts up to the next mark. -/
theorem Joins.exists_run {offset : Nat} {parts : List Atom} {tokens : List Token}
    (h : Joins offset parts tokens) {token : Token} (htoken : token ∈ tokens)
    (htext : token.kind.isText = true) :
    ∃ before run after, parts = before ++ (run ++ after) ∧
      (∀ next ∈ after.head?, next.kind.isText = false) ∧
      token.text = run.flatMap Atom.text ∧
      token.span.start = offset + size (before.flatMap Atom.text) := by
  induction h with
  | nil => cases htoken
  | @cons offset run first after rest _ heq hstart _ hmaximal _ ih =>
    rcases List.mem_cons.1 htoken with rfl | htoken
    · exact ⟨[], run, after, rfl, hmaximal htext, heq, by simpa using hstart⟩
    · obtain ⟨before, run', after', hparts, hafter, htext', hstart'⟩ := ih htoken
      refine ⟨run ++ before, run', after', ?_, hafter, htext', ?_⟩
      · rw [hparts, List.append_assoc]
      · rw [hstart', heq, List.flatMap_append, size_append, Nat.add_assoc]

/-! ## The texts of leaves -/

/-- The trimmed texts of a leaf with their places: its text, which stops where the leaf stops, and
the name of its port. Empty ones, which have no part at all, are left out. -/
def Leaf.trimmed (leaf : Leaf) : List (Located (List Char)) :=
  (⟨leaf.text, ⟨leaf.span.stop - size leaf.text, leaf.span.stop⟩⟩ :: leaf.port.toList).filter
    fun text => !text.item.isEmpty

/-- A text is a token of text, trimmed. -/
def IsTrimmed (tokens : List Token) (text : Located (List Char)) : Prop :=
  ∃ token ∈ tokens, token.kind.isText = true ∧ text = trimAt token.span.start token.text

/-- All texts of a leaf are trimmed tokens. -/
def Leaf.IsRead (tokens : List Token) (leaf : Leaf) : Prop :=
  ∀ text ∈ leaf.trimmed, IsTrimmed tokens text

/-- The name of a port, if it has one, is a trimmed token. -/
def PortMark.IsRead (tokens : List Token) (mark : PortMark) : Prop :=
  mark.port.item ≠ [] → IsTrimmed tokens mark.port

/-- What is being read of a field comes from the tokens; the leaves of a group aside. -/
def Place.IsRead (tokens : List Token) : Place → Prop
  | .start | .blank | .port _ none | .afterGroup .. => True
  | .port _ (some name) => name ∈ tokens ∧ name.kind.isText = true
  | .afterPort mark => mark.IsRead tokens
  | .afterText mark text => IsTrimmed tokens text ∧ ∀ m ∈ mark, m.IsRead tokens

/-- Everything that has been read comes from the tokens. -/
structure State.IsRead (tokens : List Token) (state : State) : Prop where
  leaves : ∀ leaf ∈ fieldLeaves state.stack state.fields ++ state.place.leaves, leaf.IsRead tokens
  place : state.place.IsRead tokens

variable {tokens : List Token} {state state' : State} {token : Token}

theorem State.start_isRead : State.start.IsRead tokens := ⟨nofun, trivial⟩

theorem mem_trimmed {leaf : Leaf} {text : Located (List Char)} : text ∈ leaf.trimmed ↔
    (text = ⟨leaf.text, ⟨leaf.span.stop - size leaf.text, leaf.span.stop⟩⟩ ∨
      text ∈ leaf.port) ∧ text.item ≠ [] := by
  simp [Leaf.trimmed]

/-- A leaf with a text stops where the text stops. -/
theorem stop_leafSpan {text : Located (List Char)} (h : text.item ≠ []) (next : Nat)
    (mark : Option PortMark) : (leafSpan next mark text).stop = text.span.stop := by
  rw [leafSpan_of_ne_nil h]
  cases mark <;> rfl

theorem IsTrimmed.start_eq {text : Located (List Char)} (h : IsTrimmed tokens text) :
    text.span.start = text.span.stop - size text.item := by
  obtain ⟨token, -, -, rfl⟩ := h
  exact (Nat.add_sub_cancel ..).symm

/-- The field that has been read has only texts that come from the tokens. -/
theorem isRead_of_field? {place : Place} {next : Nat} {field : Field}
    (hplace : place.IsRead tokens) (hleaves : ∀ leaf ∈ place.leaves, leaf.IsRead tokens)
    (h : place.field? next = some field) : ∀ leaf ∈ field.leaves, leaf.IsRead tokens := by
  have hempty : Leaf.IsRead tokens ⟨none, [], Span.empty next⟩ := by
    intro text htext
    obtain ⟨rfl | hport, hne⟩ := mem_trimmed.1 htext
    · exact absurd rfl hne
    · cases hport
  cases place with
  | start =>
    cases h
    exact List.forall_mem_singleton.2 hempty
  | blank =>
    cases h
    exact List.forall_mem_singleton.2 hempty
  | port bracket name => cases h
  | afterPort mark =>
    cases h
    refine List.forall_mem_singleton.2 fun text htext => ?_
    obtain ⟨rfl | hport, hne⟩ := mem_trimmed.1 htext
    · exact absurd rfl hne
    · cases hport
      exact hplace hne
  | afterText mark text =>
    cases h
    obtain ⟨htrimmed, hmark⟩ := hplace
    refine List.forall_mem_singleton.2 fun read hread => ?_
    obtain ⟨heq | hport, hne⟩ := mem_trimmed.1 hread
    · have hitem : text.item ≠ [] := by
        rw [heq] at hne
        exact hne
      have htext : read = text := by
        rw [heq]
        simp only [stop_leafSpan hitem, ← htrimmed.start_eq]
      rwa [htext]
    · cases mark with
      | none => cases hport
      | some m =>
        cases hport
        exact hmark m rfl hne
  | afterGroup group blank =>
    cases h
    exact hleaves

/-- The name of a port is the token between its brackets, trimmed. -/
theorem isRead_portOf {bracket close : Span} {name : Option Token}
    (h : (Place.port bracket name).IsRead tokens) : (portOf bracket name close).IsRead tokens := by
  intro hne
  unfold portOf at hne ⊢
  cases name with
  | none => exact absurd rfl hne
  | some name =>
    simp only [Option.map_some, Option.getD_some] at hne ⊢
    split at hne
    · exact absurd rfl hne
    · next hitem =>
      rw [if_neg hitem]
      exact ⟨name, h.1, h.2, rfl⟩

/-- A step takes the texts of leaves from its token. -/
theorem isRead_of_step (hstate : state.IsRead tokens) (htoken : token ∈ tokens)
    (h : step state token = .ok state') : state'.IsRead tokens := by
  obtain ⟨hleaves, hplace⟩ := hstate
  obtain ⟨hfront, hlast⟩ := List.forall_mem_append.1 hleaves
  have htext (hkind : token.kind.isText = true) :
      IsTrimmed tokens (trimAt token.span.start token.text) := ⟨token, htoken, hkind, rfl⟩
  constructor
  · rcases leaves_of_step h with heq | ⟨field, hfield, heq⟩
    · rwa [heq]
    · rw [heq]
      exact List.forall_mem_append.2 ⟨hfront, isRead_of_field? hplace hlast hfield⟩
  · cases step_eq_ok_iff.1 h with
    | blank => exact trivial
    | text hkind => exact ⟨htext hkind, nofun⟩
    | textAfterPort mark hkind =>
      refine ⟨htext hkind, fun m hm => ?_⟩
      cases hm
      exact hplace
    | blankAfterGroup => exact trivial
    | openPort => exact trivial
    | name bracket hkind => exact ⟨htoken, hkind⟩
    | closePort => exact isRead_portOf hplace
    | bar => exact trivial
    | openGroup => exact trivial
    | closeGroup => exact trivial

/-- Every text of a leaf is a token of text of the label, trimmed. -/
theorem isRead_of_read {cs : List Char} {label : List Field} (h : read cs = .ok label) :
    ∀ leaf ∈ leavesOf label, leaf.IsRead (Record.tokens cs) := by
  obtain ⟨fields, place, field, hrun, hfield, rfl⟩ := exists_run_of_read h
  have hstate : State.IsRead (Record.tokens cs) ⟨[], fields, place⟩ :=
    run_of_step (fun _ => State.IsRead (Record.tokens cs)) (tiles_tokens cs)
      (fun _ htoken _ _ _ hstate hstep => isRead_of_step hstate htoken hstep)
      State.start_isRead hrun
  obtain ⟨hfront, hlast⟩ := List.forall_mem_append.1 hstate.leaves
  rw [leavesOf_append, leavesOf_singleton]
  exact List.forall_mem_append.2 ⟨hfront, isRead_of_field? hstate.place hlast hfield⟩

/-! ## Labels -/

/-- **Trimming and escapes.** In every label that is read, the text of a leaf and the name of a
port are runs of whole parts, unless they end with an escaped blank, blanks behind it aside. Then
the text is cut there: the blank is gone, and its backslash stays. -/
theorem isCut_iff_not_isWhole {cs : List Char} {label : List Field} (h : read cs = .ok label) :
    ∀ leaf ∈ leavesOf label, ∀ text ∈ leaf.trimmed, IsCut cs text ↔ ¬ IsWhole cs text := by
  intro leaf hleaf text htext
  obtain ⟨token, htoken, hkind, rfl⟩ := isRead_of_read h leaf hleaf text htext
  obtain ⟨before, run, after, hatoms, hafter, hitem, hstart⟩ :=
    (joins_joinAtoms 0 (atoms cs)).exists_run htoken hkind
  rw [Nat.zero_add] at hstart
  rw [hitem, hstart]
  rcases isWhole_or_isCut_trimAt hatoms hafter with hwhole | hcut
  · exact ⟨not_isWhole_of_isCut, fun hnot => absurd hwhole hnot⟩
  · exact ⟨fun _ => not_isWhole_of_isCut hcut, fun _ => hcut⟩

/-- A label with a port whose name ends with an escaped blank, and with a text that ends with an
escaped bar and a blank behind it. -/
def escapedLabel : List Char := "<p\\ > a\\| |x".toList

theorem isCut_iff_not_isWhole_escapedLabel :
    ∃ label, read escapedLabel = .ok label ∧
      ((leavesOf label).flatMap Leaf.trimmed).map Located.item =
        ["a\\|".toList, "p\\".toList, "x".toList] ∧
      ∀ leaf ∈ leavesOf label, ∀ text ∈ leaf.trimmed,
        IsCut escapedLabel text ↔ ¬ IsWhole escapedLabel text := by
  have hread : read escapedLabel = .ok
      [.leaf ⟨some ⟨"p\\".toList, ⟨1, 3⟩⟩, "a\\|".toList, ⟨0, 9⟩⟩,
        .leaf ⟨none, "x".toList, ⟨11, 12⟩⟩] := rfl
  exact ⟨_, hread, rfl, isCut_iff_not_isWhole hread⟩

/-- A blank that is escaped at the end of a text is taken away from its backslash. -/
theorem not_isWhole_escapedBlank :
    ∃ label, read "a\\ ".toList = .ok label ∧
      ∃ leaf ∈ leavesOf label, leaf.text = "a\\".toList ∧
        ∃ text ∈ leaf.trimmed, text.item = leaf.text ∧ ¬ IsWhole "a\\ ".toList text := by
  have hread : read "a\\ ".toList = .ok [.leaf ⟨none, "a\\".toList, ⟨0, 2⟩⟩] := rfl
  have hcut : IsCut "a\\ ".toList ⟨"a\\".toList, ⟨0, 2⟩⟩ :=
    ⟨[], [.plain 'a'], ' ', [], [], rfl, rfl, rfl, nofun, rfl⟩
  refine ⟨_, hread, _, List.mem_singleton_self _, rfl, _, ?_, rfl, not_isWhole_of_isCut hcut⟩
  exact List.mem_singleton_self _

end DotAttributes.Record
