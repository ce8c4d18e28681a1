import DotAttributes.Proofs.Style.Spans

/-!
# The grammar of style lists

A style list is a row of items with separators in front of it, behind it and between any two items
(`IsList`). The reader accepts exactly these texts; it returns the items as they are written, with
the places of their names (`read_iff_isList`). What has been read can be written out again, and
comes back the same when that is read.

One step takes an item off the front of a text: `IsList.cons_iff` says so of the grammar, and
`readItems_append` of the reader.
-/

namespace DotAttributes.Style

open Text

/-! ## Items as they are written -/

/-- An item as it is written: the separators in front of it, its name, and what stands in the
parentheses behind the name, if there are any. -/
structure Word where
  gap : List Char
  name : List Char
  inner : Option (List Char)

/-- Writes what stands in parentheses. -/
def parenthesized : Option (List Char) → List Char
  | none => []
  | some inner => '(' :: inner ++ [')']

/-- The arguments in parentheses: the pieces between the commas, trimmed, without empty ones. -/
def argumentsIn : Option (List Char) → List (List Char)
  | none => []
  | some inner => ((inner.splitOn ',').map trim).filter fun arg => !arg.isEmpty

/-- Nothing in parentheses opens or closes another pair. -/
def IsFlat (inner : Option (List Char)) : Prop := ∀ cs ∈ inner, '(' ∉ cs ∧ ')' ∉ cs

/-- The characters of an item, with the separators in front of it. -/
def Word.text (word : Word) : List Char := word.gap ++ word.name ++ parenthesized word.inner

/-- A name is made of characters other than separators and parentheses, and is not empty. -/
structure Word.IsItem (word : Word) : Prop where
  gap : ∀ c ∈ word.gap, isSeparator c = true
  name_ne_nil : word.name ≠ []
  name : ∀ c ∈ word.name, isSeparator c = false ∧ c ≠ '(' ∧ c ≠ ')'
  inner : IsFlat word.inner

/-- A text is made of items, with separators in front of all but the first one, and with the
separators `gap` behind the last one. -/
structure IsList (cs : List Char) (words : List Word) (gap : List Char) : Prop where
  text : cs = words.flatMap Word.text ++ gap
  isItem : ∀ word ∈ words, word.IsItem
  between : ∀ word ∈ words.tail, word.gap ≠ []
  gap : ∀ c ∈ gap, isSeparator c = true

/-- The items that are written, the first one of them at `offset`. -/
def itemsAt (offset : Nat) : List Word → List Item
  | [] => []
  | word :: words =>
    ⟨⟨word.name, Span.ofSize (offset + size word.gap) (size word.name)⟩, argumentsIn word.inner⟩ ::
      itemsAt (offset + size word.text) words

variable {offset : Nat} {cs rest gap : List Char} {inner : Option (List Char)} {word : Word}
  {words : List Word}

theorem isNameChar_iff {c : Char} :
    isNameChar c = true ↔ isSeparator c = false ∧ c ≠ '(' ∧ c ≠ ')' := by
  simp [isNameChar, and_assoc]

theorem Word.IsItem.isNameChar (h : word.IsItem) : ∀ c ∈ word.name, isNameChar c = true :=
  fun c hc => isNameChar_iff.2 (h.name c hc)

/-- Behind its separators an item starts with another character. -/
theorem Word.IsItem.exists_name_eq_cons (h : word.IsItem) :
    ∃ c body, word.name = c :: body ∧ isSeparator c = false := by
  obtain ⟨c, body, hname⟩ := List.exists_cons_of_ne_nil h.name_ne_nil
  exact ⟨c, body, hname, (h.name c (by rw [hname]; exact List.mem_cons_self)).1⟩

/-- An item is taken off the front of a list: the list goes on with a separator, or ends. -/
theorem IsList.cons_iff : IsList cs (word :: words) gap ↔
    ∃ rest, cs = word.text ++ rest ∧ word.IsItem ∧ rest.head?.all isSeparator = true ∧
      IsList rest words gap := by
  constructor
  · rintro ⟨rfl, hitems, hbetween, hgap⟩
    obtain ⟨hword, hwords⟩ := List.forall_mem_cons.1 hitems
    refine ⟨words.flatMap Word.text ++ gap, by simp, hword, ?_, rfl, hwords, ?_, hgap⟩
    · cases words with
      | nil =>
        rw [Option.all_eq_true]
        intro c hc
        exact hgap c (List.mem_of_mem_head? hc)
      | cons next words =>
        obtain ⟨c, gap', hnext⟩ := List.exists_cons_of_ne_nil (hbetween next List.mem_cons_self)
        have hc := hwords next List.mem_cons_self |>.gap c (by simp [hnext])
        simp [Word.text, hnext, hc]
    · exact fun w hw => hbetween w (List.mem_of_mem_tail hw)
  · rintro ⟨rest, rfl, hword, hhead, rfl, hwords, hbetween, hgap⟩
    refine ⟨by simp, List.forall_mem_cons.2 ⟨hword, hwords⟩, ?_, hgap⟩
    cases words with
    | nil => exact nofun
    | cons next words =>
      refine List.forall_mem_cons.2 ⟨fun hnil => ?_, hbetween⟩
      -- without separators the next item would start the rest, with a character of its name
      obtain ⟨c, body, hname, hc⟩ := (hwords next List.mem_cons_self).exists_name_eq_cons
      simp [Word.text, hnil, hname, hc] at hhead

theorem isList_nil_iff : IsList cs [] gap ↔ cs = gap ∧ ∀ c ∈ gap, isSeparator c = true := by
  constructor
  · rintro ⟨rfl, -, -, hgap⟩
    exact ⟨rfl, hgap⟩
  · rintro ⟨rfl, hgap⟩
    exact ⟨rfl, nofun, nofun, hgap⟩

/-! ## Arguments -/

theorem size_parenthesized : offset + size (parenthesized (some cs)) = offset + size cs + 2 := by
  have hone : ('(' : Char).utf8Size = 1 ∧ (')' : Char).utf8Size = 1 := by decide
  simp only [parenthesized, List.cons_append, size_cons, size_append, size_nil, hone]
  omega

theorem arguments_eq (cs : List Char) : arguments cs = argumentsIn (some cs) := by
  rw [arguments, argumentsIn, pieces_eq_splitOnP, List.splitOn_eq_splitOnP]

/-- What stands in parentheses is read; without parentheses nothing is. -/
theorem readArguments_parenthesized (offset : Nat) (hinner : IsFlat inner)
    (hrest : rest.head? ≠ some '(') :
    readArguments offset (parenthesized inner ++ rest) =
      .ok ⟨argumentsIn inner, offset + size (parenthesized inner), rest⟩ := by
  cases inner with
  | none =>
    rw [parenthesized, List.nil_append]
    unfold readArguments
    split
    · exact absurd rfl hrest
    · rfl
  | some body =>
    obtain ⟨hopen, hclose⟩ := hinner body rfl
    have hflat : body.dropWhile (· != '(') = [] := by
      rw [List.dropWhile_eq_nil_iff]
      exact fun c hc => bne_iff_ne.2 fun heq => hopen (heq ▸ hc)
    rw [size_parenthesized, ← arguments_eq]
    simp only [parenthesized, List.cons_append, List.append_assoc, List.nil_append, readArguments,
      splitFirst?_append_cons hclose, hflat]

/-- What is read as arguments has been written in parentheses. -/
theorem exists_parenthesized_of_readArguments {r : ArgumentsRead}
    (h : readArguments offset cs = .ok r) :
    ∃ inner, cs = parenthesized inner ++ r.rest ∧ IsFlat inner ∧ r.args = argumentsIn inner ∧
      r.stop = offset + size (parenthesized inner) := by
  unfold readArguments at h
  split at h
  · next body =>
    split at h
    · cases h
    · next inner rest hsplit =>
      split at h
      · next hflat =>
        cases h
        refine ⟨some inner, ?_, ?_, arguments_eq inner, size_parenthesized.symm⟩
        · rw [← splitFirst?_append hsplit]
          simp [parenthesized]
        · rintro _ ⟨⟩
          refine ⟨fun hopen => ?_, not_mem_of_splitFirst? hsplit⟩
          simpa using List.dropWhile_eq_nil_iff.1 hflat _ hopen
      · cases h
  · cases h
    refine ⟨none, rfl, ?_, rfl, rfl⟩
    exact fun inner hnone => absurd hnone (Option.not_mem_none inner)

/-! ## Items -/

/-- No parenthesis opens in front of a separator or at the end. -/
theorem head?_ne_of_all_isSeparator (hrest : rest.head?.all isSeparator = true) :
    rest.head? ≠ some '(' := by
  intro hopen
  rw [hopen] at hrest
  exact absurd hrest (by decide)

/-- A name ends in front of parentheses, of a separator, and at the end. -/
theorem isNameChar_head?_parenthesized (inner : Option (List Char))
    (hrest : rest.head?.all isSeparator = true) :
    ∀ c ∈ (parenthesized inner ++ rest).head?, isNameChar c = false := by
  cases inner with
  | none =>
    intro c hc
    have hseparator := (Option.all_eq_true _ _).1 hrest c hc
    simp [isNameChar, hseparator]
  | some body =>
    rintro _ ⟨⟩
    decide

/-- Behind the separators the reader takes a name and arguments, and goes on behind them. -/
theorem readItems_of_readArguments {c : Char} {body : List Char} {r : ArgumentsRead}
    (hskip : cs.dropWhile isSeparator = c :: body) (hc : isNameChar c = true)
    (hargs : readArguments (offset + size (cs.takeWhile isSeparator) +
      size (c :: body.takeWhile isNameChar)) (body.dropWhile isNameChar) = .ok r)
    (hsep : r.rest.head?.all isSeparator = true) :
    readItems offset cs = (readItems r.stop r.rest).map fun items =>
      ⟨⟨c :: body.takeWhile isNameChar, Span.ofSize (offset + size (cs.takeWhile isSeparator))
        (size (c :: body.takeWhile isNameChar))⟩, r.args⟩ :: items := by
  rw [readItems]
  split
  · next hnil =>
    rw [hskip] at hnil
    cases hnil
  · next c' body' hcons =>
    rw [hskip] at hcons
    cases hcons
    rw [if_pos hc]
    dsimp only
    split
    · next fault hfault =>
      rw [hargs] at hfault
      cases hfault
    · next read hread =>
      rw [hargs] at hread
      cases hread
      rw [if_pos hsep]
      cases readItems r.stop r.rest <;> rfl

/-- An item is read, and then what stands behind it. -/
theorem readItems_append (hword : word.IsItem) (hrest : rest.head?.all isSeparator = true) :
    readItems offset (word.text ++ rest) =
      (readItems (offset + size word.text) rest).map fun items =>
        ⟨⟨word.name, Span.ofSize (offset + size word.gap) (size word.name)⟩,
          argumentsIn word.inner⟩ :: items := by
  obtain ⟨c, body, hname, hgap⟩ := hword.exists_name_eq_cons
  have hchars := hword.isNameChar
  rw [hname] at hchars
  obtain ⟨hc, hbody⟩ := List.forall_mem_cons.1 hchars
  have htext : word.text ++ rest =
      word.gap ++ (c :: (body ++ (parenthesized word.inner ++ rest))) := by
    simp [Word.text, hname]
  have hfirst : ∀ d ∈ (c :: (body ++ (parenthesized word.inner ++ rest))).head?,
      isSeparator d = false := by
    simpa using hgap
  have hbehind := isNameChar_head?_parenthesized word.inner hrest
  have hargs := readArguments_parenthesized (offset + size word.gap + size word.name) hword.inner
    (head?_ne_of_all_isSeparator hrest)
  have hsize : offset + size word.text =
      offset + size word.gap + size word.name + size (parenthesized word.inner) := by
    simp only [Word.text, size_append, Nat.add_assoc]
  have htaken := takeWhile_append_of_all hword.gap hfirst
  have hbodyTaken := takeWhile_append_of_all hbody hbehind
  have hbodyLeft := dropWhile_append_of_all hbody hbehind
  rw [htext, hsize, readItems_of_readArguments (dropWhile_append_of_all hword.gap hfirst) hc
    (by rw [htaken, hbodyTaken, hbodyLeft, ← hname, hargs]) hrest, htaken, hbodyTaken, ← hname]

/-- Separators alone are read as no items. -/
theorem readItems_of_all_isSeparator (h : ∀ c ∈ gap, isSeparator c = true) :
    readItems offset gap = .ok [] := by
  have hnil : gap.dropWhile isSeparator = [] := List.dropWhile_eq_nil_iff.2 h
  rw [readItems]
  split
  · rfl
  · next hcons =>
    rw [hnil] at hcons
    cases hcons

/-- What is written as a list is read, item by item. -/
theorem readItems_of_isList (h : IsList cs words gap) :
    readItems offset cs = .ok (itemsAt offset words) := by
  induction words generalizing offset cs with
  | nil =>
    obtain ⟨rfl, hgap⟩ := isList_nil_iff.1 h
    exact readItems_of_all_isSeparator hgap
  | cons word words ih =>
    obtain ⟨rest, rfl, hword, hhead, hrest⟩ := IsList.cons_iff.1 h
    rw [readItems_append hword hhead, ih hrest]
    rfl

/-- What is read has been written as a list. -/
theorem exists_isList_of_readItems {items : List Item} (h : readItems offset cs = .ok items) :
    ∃ words gap, IsList cs words gap ∧ items = itemsAt offset words := by
  fun_induction readItems offset cs generalizing items with
  | case1 offset cs hskip =>
    cases h
    exact ⟨[], cs, isList_nil_iff.2 ⟨rfl, List.dropWhile_eq_nil_iff.1 hskip⟩, rfl⟩
  | case2 => cases h
  | case3 offset cs start c body hskip hc name read hargs hsep others hothers =>
    rename_i ih
    cases h
    obtain ⟨words, gap, hlist, rfl⟩ := ih hothers
    obtain ⟨inner, hbehind, hflat, hinner, hstop⟩ := exists_parenthesized_of_readArguments hargs
    let word : Word := ⟨cs.takeWhile isSeparator, name, inner⟩
    have hname : ∀ d ∈ name, isSeparator d = false ∧ d ≠ '(' ∧ d ≠ ')' := by
      refine List.forall_mem_cons.2 ⟨isNameChar_iff.1 hc, fun d hd => ?_⟩
      exact isNameChar_iff.1 (List.mem_takeWhile_imp hd)
    have hword : word.IsItem :=
      ⟨fun _ hd => List.mem_takeWhile_imp hd, List.cons_ne_nil _ _, hname, hflat⟩
    have htext : cs = word.text ++ read.rest := by
      rw [Word.text, List.append_assoc, ← hbehind, List.append_assoc, List.cons_append,
        List.takeWhile_append_dropWhile, ← hskip, List.takeWhile_append_dropWhile]
    have hnext : read.stop = offset + size word.text := by
      simp only [hstop, start, word, Word.text, size_append, Nat.add_assoc]
    refine ⟨word :: words, gap, IsList.cons_iff.2 ⟨_, htext, hword, hsep, hlist⟩, ?_⟩
    rw [itemsAt, ← hnext, hinner]
  | case4 => cases h
  | case5 => cases h
  | case6 => cases h

/-! ## Writing items out -/

/-- What an item says: its name and its arguments. -/
def Item.content (item : Item) : List Char × List (List Char) := (item.name.item, item.args)

/-- What is written in parentheses for arguments: the arguments with commas between them. -/
def printArguments : List (List Char) → Option (List Char)
  | [] => none
  | arg :: args => some ([','].intercalate (arg :: args))

/-- Writes an item: its name, and its arguments in parentheses if there are any. -/
def Item.print (item : Item) : List Char :=
  item.name.item ++ parenthesized (printArguments item.args)

/-- Writes items with a comma and a blank between them. -/
def printItems (items : List Item) : List Char := [',', ' '].intercalate (items.map Item.print)

/-- Arguments as the reader returns them: trimmed, not empty, and without commas and
parentheses. -/
structure IsArgument (arg : List Char) : Prop where
  ne_nil : arg ≠ []
  trimmed : trim arg = arg
  comma : ',' ∉ arg
  flat : '(' ∉ arg ∧ ')' ∉ arg

/-- The characters of a piece stand in the text, and none of them is a separator. -/
theorem of_mem_splitOnP {p : Char → Bool} :
    ∀ piece ∈ cs.splitOnP p, ∀ c ∈ piece, c ∈ cs ∧ p c = false := by
  induction cs with
  | nil => simp [List.splitOnP_nil]
  | cons d cs ih =>
    have htail : ∀ piece ∈ cs.splitOnP p, ∀ c ∈ piece, c ∈ d :: cs ∧ p c = false :=
      fun piece hpiece c hc => ⟨List.mem_cons_of_mem d (ih piece hpiece c hc).1,
        (ih piece hpiece c hc).2⟩
    rw [List.splitOnP_cons_eq_if_modifyHead]
    split
    · exact List.forall_mem_cons.2 ⟨nofun, htail⟩
    · next hd =>
      obtain ⟨first, others, hsplit⟩ := List.exists_cons_of_ne_nil (List.splitOnP_ne_nil p cs)
      rw [hsplit] at htail ⊢
      obtain ⟨hfirst, hothers⟩ := List.forall_mem_cons.1 htail
      refine List.forall_mem_cons.2 ⟨?_, hothers⟩
      exact List.forall_mem_cons.2 ⟨⟨List.mem_cons_self, eq_false_of_ne_true hd⟩, hfirst⟩

/-- The arguments that are read can be written between commas. -/
theorem isArgument_of_mem_argumentsIn (hinner : IsFlat inner) :
    ∀ arg ∈ argumentsIn inner, IsArgument arg := by
  intro arg harg
  cases inner with
  | none => cases harg
  | some body =>
    obtain ⟨hmem, hne⟩ := List.mem_filter.1 harg
    obtain ⟨piece, hpiece, rfl⟩ := List.mem_map.1 hmem
    rw [List.splitOn_eq_splitOnP] at hpiece
    have hchars : ∀ c ∈ trim piece, c ∈ body ∧ (c == ',') = false :=
      fun c hc => of_mem_splitOnP piece hpiece c (trim_subset piece hc)
    obtain ⟨hopen, hclose⟩ := hinner body rfl
    refine ⟨by simpa using hne, trim_trim piece, fun hcomma => ?_, fun h => hopen (hchars _ h).1,
      fun h => hclose (hchars _ h).1⟩
    exact absurd (hchars _ hcomma).2 (by decide)

/-- A character between commas is a comma, or one of an argument. -/
theorem mem_intercalate {c : Char} {args : List (List Char)} (h : c ∈ [','].intercalate args) :
    c = ',' ∨ ∃ arg ∈ args, c ∈ arg := by
  induction args with
  | nil => cases h
  | cons arg args ih =>
    cases args with
    | nil =>
      rw [List.intercalate_singleton] at h
      exact .inr ⟨arg, List.mem_cons_self, h⟩
    | cons next args =>
      rw [List.intercalate_cons_cons, List.append_assoc] at h
      rcases List.mem_append.1 h with h | h
      · exact .inr ⟨arg, List.mem_cons_self, h⟩
      · rcases List.mem_cons.1 h with h | h
        · exact .inl h
        · rcases ih h with h | ⟨arg', harg', hc⟩
          · exact .inl h
          · exact .inr ⟨arg', List.mem_cons_of_mem arg harg', hc⟩

section

variable {args : List (List Char)} (hargs : ∀ arg ∈ args, IsArgument arg)

include hargs

theorem isFlat_printArguments : IsFlat (printArguments args) := by
  cases args with
  | nil => exact nofun
  | cons arg args =>
    rintro _ ⟨⟩
    constructor
    · intro hopen
      rcases mem_intercalate hopen with heq | ⟨arg', harg', hc⟩
      · exact absurd heq (by decide)
      · exact (hargs arg' harg').flat.1 hc
    · intro hclose
      rcases mem_intercalate hclose with heq | ⟨arg', harg', hc⟩
      · exact absurd heq (by decide)
      · exact (hargs arg' harg').flat.2 hc

/-- Arguments written between commas are read again. -/
theorem argumentsIn_printArguments : argumentsIn (printArguments args) = args := by
  cases args with
  | nil => rfl
  | cons arg args =>
    have hsplit : ([','].intercalate (arg :: args)).splitOn ',' = arg :: args :=
      List.splitOn_intercalate ',' (fun l hl => (hargs l hl).comma) (List.cons_ne_nil _ _)
    have htrim : (arg :: args).map trim = arg :: args :=
      (List.map_congr_left fun l hl => (hargs l hl).trimmed).trans (List.map_id _)
    rw [printArguments, argumentsIn, hsplit, htrim, List.filter_eq_self]
    exact fun l hl => by simpa using (hargs l hl).ne_nil

end

/-- Items as the reader returns them can be written out. -/
structure Item.IsPrintable (item : Item) : Prop where
  name_ne_nil : item.name.item ≠ []
  name : ∀ c ∈ item.name.item, isSeparator c = false ∧ c ≠ '(' ∧ c ≠ ')'
  args : ∀ arg ∈ item.args, IsArgument arg

/-- The item as it is written out behind the separators `gap`. -/
def Item.toWord (item : Item) (gap : List Char) : Word :=
  ⟨gap, item.name.item, printArguments item.args⟩

theorem Item.IsPrintable.isItem {item : Item} (h : item.IsPrintable)
    (hgap : ∀ c ∈ gap, isSeparator c = true) : (item.toWord gap).IsItem :=
  ⟨hgap, h.name_ne_nil, h.name, isFlat_printArguments h.args⟩

/-- The items as they are written out: separators stand in front of all but the first one. -/
def wordsOf : List Item → List Word
  | [] => []
  | item :: items => item.toWord [] :: items.map (Item.toWord · [',', ' '])

theorem printItems_eq (items : List Item) :
    printItems items = (wordsOf items).flatMap Word.text := by
  cases items with
  | nil => rfl
  | cons item items =>
    induction items generalizing item with
    | nil => simp [printItems, wordsOf, Item.toWord, Item.print, Word.text]
    | cons next items ih =>
      have hnext := ih next
      simp only [printItems, wordsOf, List.map_cons, List.flatMap_cons] at hnext ⊢
      rw [List.intercalate_cons_cons, hnext]
      simp [Item.toWord, Item.print, Word.text]

theorem isPrintable_of_mem_itemsAt (offset : Nat) (hwords : ∀ word ∈ words, word.IsItem) :
    ∀ item ∈ itemsAt offset words, item.IsPrintable := by
  induction words generalizing offset with
  | nil => exact nofun
  | cons word words ih =>
    obtain ⟨hword, hwords⟩ := List.forall_mem_cons.1 hwords
    exact List.forall_mem_cons.2
      ⟨⟨hword.name_ne_nil, hword.name, isArgument_of_mem_argumentsIn hword.inner⟩, ih _ hwords⟩

/-- What is written out is a list. -/
theorem isList_printItems {items : List Item} (h : ∀ item ∈ items, item.IsPrintable) :
    IsList (printItems items) (wordsOf items) [] := by
  have hgap : ∀ c ∈ [',', ' '], isSeparator c = true := List.all_eq_true.1 rfl
  refine ⟨by rw [printItems_eq, List.append_nil], ?_, ?_, nofun⟩
  · cases items with
    | nil => exact nofun
    | cons item items =>
      obtain ⟨hitem, hitems⟩ := List.forall_mem_cons.1 h
      refine List.forall_mem_cons.2 ⟨hitem.isItem nofun, List.forall_mem_map.2 fun i hi => ?_⟩
      exact (hitems i hi).isItem hgap
  · cases items with
    | nil => exact nofun
    | cons item items => exact List.forall_mem_map.2 fun _ _ => List.cons_ne_nil _ _

theorem map_content_itemsAt (offset : Nat) (words : List Word) :
    (itemsAt offset words).map Item.content =
      words.map fun word => (word.name, argumentsIn word.inner) := by
  induction words generalizing offset with
  | nil => rfl
  | cons word words ih => rw [itemsAt, List.map_cons, ih, List.map_cons, Item.content]

/-- The items that are written out say what they said. -/
theorem map_content_wordsOf {items : List Item} (h : ∀ item ∈ items, item.IsPrintable) :
    ((wordsOf items).map fun word => (word.name, argumentsIn word.inner)) =
      items.map Item.content := by
  have hword : ∀ item ∈ items, ∀ gap,
      ((item.toWord gap).name, argumentsIn (item.toWord gap).inner) = item.content := by
    intro item hitem gap
    exact Prod.ext rfl (argumentsIn_printArguments (h item hitem).args)
  cases items with
  | nil => rfl
  | cons item items =>
    obtain ⟨hitem, hitems⟩ := List.forall_mem_cons.1 hword
    rw [wordsOf, List.map_cons, List.map_map, List.map_cons, hitem]
    exact congrArg _ (List.map_congr_left fun i hi => hitems i hi _)

/-- **The grammar of style lists.** Reading succeeds exactly for lists of items with separators
between them, and returns the items in order, with the places of their names. Written out, with
their arguments, they are read again. -/
theorem read_iff_isList (cs : List Char) :
    ((∃ items, read cs = .ok items) ↔ ∃ words gap, IsList cs words gap) ∧
      (∀ words gap, IsList cs words gap → read cs = .ok (itemsAt 0 words)) ∧
      ∀ items, read cs = .ok items → ∃ again, read (printItems items) = .ok again ∧
        again.map Item.content = items.map Item.content := by
  refine ⟨⟨?_, ?_⟩, fun words gap hlist => readItems_of_isList hlist, ?_⟩
  · rintro ⟨items, hread⟩
    obtain ⟨words, gap, hlist, -⟩ := exists_isList_of_readItems hread
    exact ⟨words, gap, hlist⟩
  · rintro ⟨words, gap, hlist⟩
    exact ⟨_, readItems_of_isList hlist⟩
  · intro items hread
    obtain ⟨words, gap, hlist, rfl⟩ := exists_isList_of_readItems hread
    have hprintable := isPrintable_of_mem_itemsAt 0 hlist.isItem
    refine ⟨_, readItems_of_isList (isList_printItems hprintable), ?_⟩
    rw [map_content_itemsAt, map_content_wordsOf hprintable]

/-- Two items: a name of two bytes with arguments, and a name alone. -/
theorem read_iff_isList_items :
    IsList " é( 1,, 2 3 ),bold ".toList
      [⟨[' '], ['é'], some " 1,, 2 3 ".toList⟩, ⟨[','], "bold".toList, none⟩] [' '] ∧
    read " é( 1,, 2 3 ),bold ".toList =
      .ok [⟨⟨['é'], ⟨1, 3⟩⟩, [['1'], "2 3".toList]⟩, ⟨⟨"bold".toList, ⟨15, 19⟩⟩, []⟩] ∧
    printItems [⟨⟨['é'], ⟨1, 3⟩⟩, [['1'], "2 3".toList]⟩, ⟨⟨"bold".toList, ⟨15, 19⟩⟩, []⟩] =
      "é(1,2 3), bold".toList ∧
    ∃ again, read "é(1,2 3), bold".toList = .ok again ∧
      again.map Item.content = [(['é'], [['1'], "2 3".toList]), ("bold".toList, [])] := by
  have hlist : IsList " é( 1,, 2 3 ),bold ".toList
      [⟨[' '], ['é'], some " 1,, 2 3 ".toList⟩, ⟨[','], "bold".toList, none⟩] [' '] := by
    have hname (name : List Char) (h : name.all isNameChar = true) :
        ∀ c ∈ name, isSeparator c = false ∧ c ≠ '(' ∧ c ≠ ')' :=
      fun c hc => isNameChar_iff.1 (List.all_eq_true.1 h c hc)
    refine ⟨by decide, List.forall_mem_cons.2 ⟨?_, List.forall_mem_singleton.2 ?_⟩, by decide,
      List.all_eq_true.1 rfl⟩
    · exact ⟨List.all_eq_true.1 rfl, by decide, hname _ rfl, by unfold IsFlat; decide⟩
    · exact ⟨List.all_eq_true.1 rfl, by decide, hname _ rfl, nofun⟩
  have hread := (read_iff_isList _).2.1 _ _ hlist
  have hagain := (read_iff_isList _).2.2 _ hread
  exact ⟨hlist, hread, by decide, hagain⟩

end DotAttributes.Style
