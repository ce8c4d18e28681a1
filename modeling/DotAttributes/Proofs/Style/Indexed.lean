import DotAttributes.Proofs.Offsets
import DotAttributes.Proofs.Style.Spans
import DotAttributes.Style.Reading

/-!
# Reading style lists by offsets

The reader of style lists as one that goes over the bytes of the whole value and slices names and
arguments out of it. Where it stops, a byte is a separator or a parenthesis, or else none of these
follows; both can only be between two characters (`isSeparatorByte_eq`, `isNameByte_eq`). So no
slice fails, and the items are the same (`read?_eq`).
-/

namespace DotAttributes.Style.Indexed

open Text

/-! ## The reader -/

/-- Whether a byte separates items. -/
def isSeparatorByte (b : UInt8) : Bool :=
  b == byte ',' || b == byte ' ' || b == byte '\t' || b == byte '\n' || b == byte '\x0c' ||
    b == byte '\r'

/-- Whether a byte may stand in the name of an item. -/
def isNameByte (b : UInt8) : Bool := !isSeparatorByte b && b != byte '(' && b != byte ')'

/-- The fault of the character at an offset, which starts no item. -/
def noItemAt (text : List Char) (pos : Nat) : Located Fault :=
  ⟨.noItem (charAt text pos), charSpan pos (charAt text pos)⟩

/-- Reads the arguments at an offset; also says where they end. Without an opening parenthesis
there are none. -/
def readArguments? (text : List Char) (pos : Nat) :
    Option (Except (Located Fault) (List (List Char) × Nat)) :=
  if (bytes text)[pos]? = some (byte '(') then do
    let rest ← from? text pos
    match find? [')'] rest with
    | none => some (.error ⟨.unclosed, charSpan (size text) (charAt text (size text))⟩)
    | some rel =>
      let close := pos + rel
      let inner ← slice? text ⟨pos + 1, close⟩
      match find? ['('] inner with
      | some nested => some (.error (noItemAt text (pos + 1 + nested)))
      | none => some (.ok (arguments inner, close + 1))
  else some (.ok ([], pos))

/-- Whether an item may end at an offset: at the end of the text or in front of a separator. -/
def endsItem? (text : List Char) (pos : Nat) : Option Bool :=
  if pos < size text then (bytes text)[pos]?.map isSeparatorByte else some true

/-- Reads the item at an offset; also says where it ends. -/
def readItem? (text : List Char) (start : Nat) :
    Option (Except (Located Fault) (Item × Nat)) := do
  let stop ← skipBytes? isNameByte (bytes text) start
  if stop = start then some (.error (noItemAt text start))
  else
    let name ← slice? text ⟨start, stop⟩
    match ← readArguments? text stop with
    | .error fault => some (.error fault)
    | .ok (args, next) =>
      if ← endsItem? text next then some (.ok (⟨⟨name, ⟨start, stop⟩⟩, args⟩, next))
      else some (.error (noItemAt text next))

/-- Reads the items from an offset on. -/
def readItems? (text : List Char) (pos : Nat) :
    Option (Except (Located Fault) (List Item)) := do
  let start ← skipBytes? isSeparatorByte (bytes text) pos
  if size text ≤ start then some (.ok [])
  else
    match ← readItem? text start with
    | .error fault => some (.error fault)
    | .ok (item, next) =>
      if _h : pos < next ∧ next ≤ size text then
        match ← readItems? text next with
        | .ok items => some (.ok (item :: items))
        | .error fault => some (.error fault)
      else none
termination_by size text - pos

/-- Reads a style list. -/
def read? (text : List Char) : Option (Except (Located Fault) (List Item)) := readItems? text 0

/-! ## Bytes -/

theorem isSeparatorByte_eq (c : Char) :
    ∀ b ∈ String.utf8EncodeChar c, isSeparatorByte b = isSeparator c := by
  intro b hb
  unfold isSeparatorByte isSeparator
  simp only [byte_beq hb (d := ',') (by decide), byte_beq hb (d := ' ') (by decide),
    byte_beq hb (d := '\t') (by decide), byte_beq hb (d := '\n') (by decide),
    byte_beq hb (d := '\x0c') (by decide), byte_beq hb (d := '\r') (by decide)]

theorem isNameByte_eq (c : Char) :
    ∀ b ∈ String.utf8EncodeChar c, isNameByte b = isNameChar c := by
  intro b hb
  unfold isNameByte isNameChar
  simp only [isSeparatorByte_eq c b hb, bne, byte_beq hb (d := '(') (by decide),
    byte_beq hb (d := ')') (by decide)]

variable {before rest : List Char}

theorem noItemAt_append :
    noItemAt (before ++ rest) (size before) = Style.noItemAt (size before) rest := by
  rw [noItemAt, Style.noItemAt, charAt_append]

/-- An item ends in front of what is no separator exactly if nothing is there. -/
theorem endsItem?_append :
    endsItem? (before ++ rest) (size before) = some (rest.head?.all isSeparator) := by
  cases rest with
  | nil =>
    rw [endsItem?, if_neg (by simp)]
    rfl
  | cons c rest =>
    obtain ⟨b, hb, hbyte⟩ := getElem?_bytes_append before rest c
    have hpos := Char.utf8Size_pos c
    have hin : size before < size (before ++ c :: rest) := by
      simp only [size_append, size_cons]
      omega
    rw [endsItem?, if_pos hin, hbyte, Option.map_some, isSeparatorByte_eq c b hb]
    rfl

/-! ## Arguments -/

/-- In front of arguments the reader takes them, and elsewhere there are none. -/
theorem readArguments?_append : readArguments? (before ++ rest) (size before) =
    some ((readArguments (size before) rest).map fun r => (r.args, r.stop)) := by
  cases rest with
  | nil =>
    rw [readArguments?, getElem?_bytes_append_nil, if_neg (by simp)]
    rfl
  | cons c body =>
    obtain ⟨b, hb, hbyte⟩ := getElem?_bytes_append before body c
    have hparen : (b == byte '(') = (c == '(') := byte_beq hb (by decide)
    by_cases hc : c = '('
    · subst hc
      have hopens : (bytes (before ++ '(' :: body))[size before]? = some (byte '(') := by
        rw [hbyte, eq_of_beq (hparen.trans (beq_self_eq_true '('))]
      have hone : ('(' : Char).utf8Size = 1 := by decide
      have hclose : find? [')'] ('(' :: body) =
          (splitFirst? ')' body).map fun parts => 1 + size parts.1 := find?_cons (by decide) body
      rw [readArguments?, if_pos hopens, readArguments, from?_append]
      simp only [Option.bind_eq_bind, Option.bind_some, hclose]
      cases hsplit : splitFirst? ')' body with
      | none =>
        simp only [Option.map_none, charAt_end]
        rw [charSpan, size_append]
        rfl
      | some parts =>
        obtain ⟨inner, rest⟩ := parts
        have hbody := splitFirst?_append hsplit
        have hopen : size (before ++ ['(']) = size before + 1 := by simp [hone]
        have hinner : slice? (before ++ '(' :: body)
            ⟨size before + 1, size before + (1 + size inner)⟩ = some inner := by
          have hslice := slice?_append (before ++ ['(']) (')' :: rest) inner
          rw [hopen] at hslice
          rw [← hbody, ← Nat.add_assoc]
          simpa using hslice
        simp only [Option.map_some, hinner, Option.bind_some, find?_singleton]
        rw [splitFirst?]
        cases hnested : inner.dropWhile (· != '(') with
        | nil =>
          have hstop : size before + (1 + size inner) + 1 = size before + size inner + 2 := by
            omega
          simp only [Option.map_none, hstop]
          rfl
        | cons d tail =>
          have hsplitInner := List.takeWhile_append_dropWhile (p := (· != '(')) (l := inner)
          rw [hnested] at hsplitInner
          have htext : before ++ '(' :: body =
              (before ++ '(' :: inner.takeWhile (· != '(')) ++ d :: (tail ++ ')' :: rest) := by
            have hbehind : inner ++ ')' :: rest =
                inner.takeWhile (· != '(') ++ d :: (tail ++ ')' :: rest) := by
              rw [← List.cons_append, ← List.append_assoc, hsplitInner]
            rw [← hbody, hbehind]
            simp
          have hsize : size before + 1 + size (inner.takeWhile (· != '(')) =
              size (before ++ '(' :: inner.takeWhile (· != '(')) := by
            simp only [size_append, size_cons, hone, Nat.add_assoc]
          simp only [Option.map_some, htext, hsize, noItemAt_append]
          rfl
    · have hnone : ¬ (bytes (before ++ c :: body))[size before]? = some (byte '(') := by
        rw [hbyte, Option.some.injEq]
        intro heq
        rw [heq, beq_self_eq_true] at hparen
        exact hc (eq_of_beq hparen.symm)
      rw [readArguments?, if_neg hnone]
      unfold readArguments
      split
      · next heq =>
        cases heq
        exact absurd rfl hc
      · rfl

/-! ## Items -/

/-- What the reader of one item takes off the front of a text. -/
def itemOf (start : Nat) (name : List Char) (r : ArgumentsRead) :
    Except (Located Fault) (Item × Nat) :=
  if r.rest.head?.all isSeparator then
    .ok (⟨⟨name, Span.ofSize start (size name)⟩, r.args⟩, r.stop)
  else .error (Style.noItemAt r.stop r.rest)

theorem readItem?_noItem {c : Char} (hname : isNameChar c = false) (body : List Char) :
    readItem? (before ++ c :: body) (size before) =
      some (.error (Style.noItemAt (size before) (c :: body))) := by
  have hstop : skipBytes? isNameByte (bytes (before ++ c :: body)) (size before) =
      some (size before) := by
    rw [skipBytes?_append _ _ isNameByte_eq, List.takeWhile_cons, hname]
    rfl
  rw [readItem?, hstop]
  simp only [Option.bind_eq_bind, Option.bind_some, if_true, noItemAt_append]

/-- The reader takes a name, then the arguments behind it, and looks at what follows. -/
theorem readItem?_append {c : Char} {body name : List Char} (hname : isNameChar c = true)
    (hitem : name = c :: body.takeWhile isNameChar) :
    readItem? (before ++ c :: body) (size before) =
      some (match readArguments (size before + size name) (body.dropWhile isNameChar) with
        | .error fault => .error fault
        | .ok r => itemOf (size before) name r) := by
  have htext : before ++ c :: body = before ++ name ++ body.dropWhile isNameChar := by
    rw [hitem, List.append_assoc, List.cons_append, List.takeWhile_append_dropWhile]
  have hstop : skipBytes? isNameByte (bytes (before ++ c :: body)) (size before) =
      some (size before + size name) := by
    rw [skipBytes?_append _ _ isNameByte_eq, List.takeWhile_cons, if_pos hname, hitem]
  have hforward : ¬ size before + size name = size before := by
    have hpos := Char.utf8Size_pos c
    rw [hitem, size_cons]
    omega
  have hslice : slice? (before ++ c :: body) ⟨size before, size before + size name⟩ =
      some name := by
    rw [htext]
    exact slice?_append _ _ _
  have hread : readArguments? (before ++ c :: body) (size before + size name) =
      some ((readArguments (size before + size name) (body.dropWhile isNameChar)).map
        fun r => (r.args, r.stop)) := by
    rw [htext, ← size_append, readArguments?_append]
  rw [readItem?, hstop]
  simp only [Option.bind_eq_bind, Option.bind_some, if_neg hforward, hslice, hread]
  cases hargs : readArguments (size before + size name) (body.dropWhile isNameChar) with
  | error fault => rfl
  | ok r =>
    obtain ⟨taken, htaken, hnext⟩ := readArguments_append hargs
    have hbehind : before ++ c :: body = before ++ name ++ taken ++ r.rest := by
      rw [htext, htaken, List.append_assoc _ taken]
    have hsize : r.stop = size (before ++ name ++ taken) := by
      rw [hnext, size_append, size_append]
    simp only [Except.map, hbehind, hsize, endsItem?_append, noItemAt_append, Option.bind_some,
      itemOf]
    cases r.rest.head?.all isSeparator <;> rfl

theorem readItems?_nil (hskip : rest.dropWhile isSeparator = []) :
    readItems? (before ++ rest) (size before) = some (.ok []) := by
  have hsplit := List.takeWhile_append_dropWhile (p := isSeparator) (l := rest)
  rw [hskip, List.append_nil] at hsplit
  rw [readItems?, skipBytes?_append _ _ isSeparatorByte_eq, hsplit, ← size_append]
  exact if_pos (Nat.le_refl _)

section

variable {c : Char} {body : List Char} (hskip : rest.dropWhile isSeparator = c :: body)

include hskip

theorem append_skipped : before ++ rest = before ++ rest.takeWhile isSeparator ++ c :: body := by
  rw [List.append_assoc, ← hskip, List.takeWhile_append_dropWhile]

/-- In front of an item the reader goes over separators and reads it, and goes on behind it. -/
theorem readItems?_cons : readItems? (before ++ rest) (size before) = (do
    match ← readItem? (before ++ rest) (size before + size (rest.takeWhile isSeparator)) with
    | .error fault => some (.error fault)
    | .ok (item, next) =>
      if size before < next ∧ next ≤ size (before ++ rest) then
        match ← readItems? (before ++ rest) next with
        | .ok items => some (.ok (item :: items))
        | .error fault => some (.error fault)
      else none) := by
  have hpos := Char.utf8Size_pos c
  have hin : ¬ size (before ++ rest) ≤ size before + size (rest.takeWhile isSeparator) := by
    rw [append_skipped hskip, size_append, size_append, size_cons]
    omega
  rw [readItems?, skipBytes?_append _ _ isSeparatorByte_eq]
  simp only [Option.bind_eq_bind, Option.bind_some, if_neg hin, dite_eq_ite]

theorem readItem?_skipped_noItem (hname : isNameChar c = false) :
    readItem? (before ++ rest) (size before + size (rest.takeWhile isSeparator)) =
      some (.error (Style.noItemAt (size before + size (rest.takeWhile isSeparator))
        (c :: body))) := by
  rw [append_skipped hskip, ← size_append, readItem?_noItem hname]

theorem readItem?_skipped (hname : isNameChar c = true) :
    readItem? (before ++ rest) (size before + size (rest.takeWhile isSeparator)) =
      some (match readArguments (size before + size (rest.takeWhile isSeparator) +
          size (c :: body.takeWhile isNameChar)) (body.dropWhile isNameChar) with
        | .error fault => .error fault
        | .ok r => itemOf (size before + size (rest.takeWhile isSeparator))
            (c :: body.takeWhile isNameChar) r) := by
  rw [append_skipped hskip, ← size_append]
  exact readItem?_append hname rfl

/-- Behind an item the rest of the text stands, at a later offset. -/
theorem exists_append_rest {r : ArgumentsRead}
    (hargs : readArguments (size before + size (rest.takeWhile isSeparator) +
      size (c :: body.takeWhile isNameChar)) (body.dropWhile isNameChar) = .ok r) :
    ∃ front, before ++ rest = front ++ r.rest ∧ r.stop = size front ∧
      size before < r.stop ∧ r.stop ≤ size (before ++ rest) := by
  obtain ⟨taken, htaken, hstop⟩ := readArguments_append hargs
  have hpos := Char.utf8Size_pos c
  have hfront : before ++ rest = before ++ rest.takeWhile isSeparator ++
      (c :: body.takeWhile isNameChar) ++ taken ++ r.rest := by
    rw [append_skipped hskip, List.append_assoc _ taken, ← htaken, List.append_assoc _ (c :: _),
      List.cons_append, List.takeWhile_append_dropWhile]
  refine ⟨_, hfront, ?_, ?_, ?_⟩
  · rw [hstop]
    simp only [size_append]
  · rw [hstop, size_cons]
    omega
  · rw [hfront, hstop]
    simp only [size_append]
    omega

/-- Behind an item that ends well the reader reads the other items. -/
theorem readItems?_item {r : ArgumentsRead} {others : Except (Located Fault) (List Item)}
    (hname : isNameChar c = true)
    (hargs : readArguments (size before + size (rest.takeWhile isSeparator) +
      size (c :: body.takeWhile isNameChar)) (body.dropWhile isNameChar) = .ok r)
    (hsep : r.rest.head?.all isSeparator = true)
    (hothers : ∀ front, size front = r.stop →
      readItems? (front ++ r.rest) r.stop = some others) :
    readItems? (before ++ rest) (size before) =
      some (others.map (⟨⟨c :: body.takeWhile isNameChar,
        Span.ofSize (size before + size (rest.takeWhile isSeparator))
          (size (c :: body.takeWhile isNameChar))⟩, r.args⟩ :: ·)) := by
  obtain ⟨front, hfront, hnext, hinside⟩ := exists_append_rest hskip hargs
  rw [readItems?_cons hskip, readItem?_skipped hskip hname, hargs]
  simp only [itemOf, if_pos hsep, Option.bind_eq_bind, Option.bind_some, if_pos hinside]
  rw [hfront, hothers front hnext.symm]
  cases others <;> rfl

end

theorem readItems?_append (offset : Nat) (cs : List Char) : ∀ before, size before = offset →
    readItems? (before ++ cs) offset = some (readItems offset cs) := by
  fun_induction readItems offset cs with
  | case1 offset cs hd =>
    rintro before rfl
    exact readItems?_nil hd
  | case2 offset cs start c body hd hname name fault hargs =>
    rintro before rfl
    rw [readItems?_cons hd, readItem?_skipped hd hname, hargs]
    rfl
  | case3 offset cs start c body hd hname name read hargs hsep items hrest ih =>
    rintro before rfl
    rw [readItems?_item hd hname hargs hsep ih, hrest]
    rfl
  | case4 offset cs start c body hd hname name read hargs hsep fault hrest ih =>
    rintro before rfl
    rw [readItems?_item hd hname hargs hsep ih, hrest]
    rfl
  | case5 offset cs start c body hd hname name read hargs hsep =>
    rintro before rfl
    rw [readItems?_cons hd, readItem?_skipped hd hname, hargs]
    simp only [itemOf, if_neg hsep]
    rfl
  | case6 offset cs start c body hd hname =>
    rintro before rfl
    rw [readItems?_cons hd, readItem?_skipped_noItem hd (eq_false_of_ne_true hname)]
    rfl

/-- **Style lists by offsets.** No slice of the reader fails, and it reads what it should. -/
theorem read?_eq (text : List Char) : read? text = some (Style.read text) := by
  exact readItems?_append 0 text [] rfl

end DotAttributes.Style.Indexed
