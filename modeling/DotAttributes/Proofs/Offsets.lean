import DotAttributes.Proofs.Slice

/-!
# Operations on texts that can fail

A reader that goes over a text by offsets slices it, subtracts offsets from each other and steps
over characters. None of this is possible everywhere: a slice needs two boundaries of the text in
order, a difference may not go below zero, and at the end there is nothing to step over. Here are
these operations, with the answer `none` where they fail.

Where a reader stands, a beginning of the text ends. The lemmas say that there the operations do
not fail and what they give: `from?_append`, `slice?_append`, `skipWhile?_append` for characters,
and `skipBytes?_append` for readers that look at single bytes. A test of bytes stops between
characters if it agrees with a test of characters on all bytes of each of them (`byte_beq`).
-/

namespace DotAttributes.Text

/-! ## The operations -/

/-- What follows an offset. -/
def from? (cs : List Char) (n : Nat) : Option (List Char) := slice? cs ⟨n, size cs⟩

/-- The difference of two numbers, unless it is below zero. -/
def subtract? (a b : Nat) : Option Nat := if b ≤ a then some (a - b) else none

/-- The character at an offset; there is none at the end of the text. The offset itself has to be
a good one. -/
def peek? (cs : List Char) (n : Nat) : Option (Option Char) := (from? cs n).map List.head?

/-- Steps over the character at an offset. It fails at the end of the text. -/
def advance? (cs : List Char) (n : Nat) : Option (Char × Nat) :=
  match from? cs n with
  | some (c :: _) => some (c, n + c.utf8Size)
  | _ => none

example : slice? ['é'] ⟨0, 1⟩ = none ∧ advance? ['é'] 2 = none ∧ subtract? 1 2 = none := by decide

/-- Steps over characters as long as they pass a test. -/
def skipWhile? (p : Char → Bool) (cs : List Char) (n : Nat) : Option Nat := do
  match ← peek? cs n with
  | none => some n
  | some c =>
    if p c then
      let (_, next) ← advance? cs n
      if _h : n < next ∧ next ≤ size cs then skipWhile? p cs next else none
    else some n
termination_by size cs - n

/-- The character at an offset, if there is one; this does not fail. -/
def charAt (cs : List Char) (n : Nat) : Option Char := (from? cs n).bind List.head?

/-- The offset of the first place at which a text goes on with a pattern; this does not fail. -/
def find? (pattern : List Char) : List Char → Option Nat
  | [] => if pattern.isEmpty then some 0 else none
  | c :: cs =>
    if (after? pattern (c :: cs)).isSome then some 0
    else (find? pattern cs).map (c.utf8Size + ·)

/-! ## Bytes -/

/-- The UTF-8 form of a text. -/
def bytes (cs : List Char) : List UInt8 := cs.flatMap String.utf8EncodeChar

/-- The byte that a character of ASCII is. -/
def byte (c : Char) : UInt8 := UInt8.ofNat c.toNat

/-- Steps over bytes as long as they pass a test. -/
def skipBytes? (p : UInt8 → Bool) (bs : List UInt8) (n : Nat) : Option Nat :=
  if n < bs.length then do
    let b ← bs[n]?
    if p b then skipBytes? p bs (n + 1) else some n
  else some n
termination_by bs.length - n

variable (before rest after : List Char) {t cs : List Char}

/-! ## Where a beginning of the text ends -/

theorem slice?_append (t : List Char) :
    slice? (before ++ t ++ after) ⟨size before, size before + size t⟩ = some t :=
  slice?_eq_some_iff.2 ⟨before, after, rfl, by rw [Nat.zero_add]; rfl⟩

@[simp] theorem from?_append : from? (before ++ rest) (size before) = some rest :=
  slice?_eq_some_iff.2 ⟨before, [], by simp, by rw [Nat.zero_add, size_append]; rfl⟩

@[simp] theorem charAt_append : charAt (before ++ rest) (size before) = rest.head? := by
  rw [charAt, from?_append]
  rfl

@[simp] theorem peek?_append : peek? (before ++ rest) (size before) = some rest.head? := by
  rw [peek?, from?_append]
  rfl

theorem advance?_append (c : Char) :
    advance? (before ++ c :: rest) (size before) = some (c, size before + c.utf8Size) := by
  rw [advance?, from?_append]

theorem subtract?_add (a b : Nat) : subtract? (a + b) b = some a := by
  rw [subtract?, if_pos (Nat.le_add_left b a), Nat.add_sub_cancel]

/-- The blanks in front of a text are what trimming takes away there. -/
theorem subtract?_trimStart (cs : List Char) :
    subtract? (size cs) (size (trimStart cs)) = some (size (cs.takeWhile isBlank)) := by
  have hsize : size cs = size (cs.takeWhile isBlank) + size (trimStart cs) := by
    rw [← size_append, ← trimStart_eq]
  rw [hsize, subtract?_add]

theorem skipWhile?_append (p : Char → Bool) :
    skipWhile? p (before ++ rest) (size before) = some (size before + size (rest.takeWhile p)) := by
  induction rest generalizing before with
  | nil =>
    rw [skipWhile?, peek?_append]
    rfl
  | cons c rest ih =>
    rw [skipWhile?, peek?_append, advance?_append]
    by_cases hc : p c = true
    · have hpos := Char.utf8Size_pos c
      have hnext : size before + c.utf8Size = size (before ++ [c]) := by simp
      have hin : size before < size before + c.utf8Size ∧
          size before + c.utf8Size ≤ size (before ++ c :: rest) := by
        simp only [size_append, size_cons]
        omega
      have htail := ih (before ++ [c])
      rw [List.append_assoc, List.singleton_append, ← hnext] at htail
      simp only [Option.bind_eq_bind, Option.bind_some, List.head?_cons, if_pos hc, dif_pos hin,
        htail, List.takeWhile_cons, size_cons, Nat.add_assoc]
    · simp [hc]

/-- In a text of characters of one byte the bytes can be counted as characters. -/
theorem slice?_of_oneByte {i j : Nat} (hone : ∀ c ∈ cs, c.utf8Size = 1) (hij : i ≤ j)
    (hj : j ≤ cs.length) : slice? cs ⟨i, j⟩ = some ((cs.take j).drop i) := by
  have hsplit : cs = cs.take i ++ (cs.take j).drop i ++ cs.drop j := by
    have htake : cs.take i = (cs.take j).take i := by rw [List.take_take, Nat.min_eq_left hij]
    rw [htake, List.take_append_drop, List.take_append_drop]
  have hfirst : size (cs.take i) = i := by
    rw [size_eq_length fun c hc => hone c (List.mem_of_mem_take hc), List.length_take]
    omega
  have hsecond : size ((cs.take j).drop i) = j - i := by
    rw [size_eq_length fun c hc => hone c (List.mem_of_mem_take (List.mem_of_mem_drop hc)),
      List.length_drop, List.length_take]
    omega
  refine slice?_eq_some_iff.2 ⟨cs.take i, cs.drop j, hsplit, ?_⟩
  rw [hfirst, hsecond, Span.ofSize, Span.mk.injEq]
  omega

theorem charAt_end (cs : List Char) : charAt cs (size cs) = none := by
  have hend := charAt_append cs []
  rwa [List.append_nil] at hend

/-! ## Patterns -/

/-- There is something left after a beginning exactly of the texts that begin so. -/
theorem isSome_after?_iff {pattern : List Char} :
    (after? pattern cs).isSome = true ↔ ∃ rest, cs = pattern ++ rest := by
  simp only [Option.isSome_iff_exists, after?_eq_some_iff]

theorem find?_cons_of_ne {c d : Char} (h : c ≠ d) (cs : List Char) :
    find? [d] (c :: cs) = (find? [d] cs).map (c.utf8Size + ·) := by
  have hafter : after? [d] (c :: cs) = none := if_neg fun heq => h heq.symm
  rw [find?, hafter]
  rfl

/-- One character is found behind what stands in front of it. -/
theorem find?_singleton (d : Char) :
    find? [d] cs = (splitFirst? d cs).map fun parts => size parts.1 := by
  induction cs with
  | nil => rfl
  | cons c cs ih =>
    by_cases hc : c = d
    · subst hc
      simp [find?, after?, splitFirst?]
    · have hne : (c != d) = true := bne_iff_ne.2 hc
      rw [find?_cons_of_ne hc, ih, splitFirst?, splitFirst?]
      simp only [List.dropWhile_cons, List.takeWhile_cons, hne, if_true]
      cases cs.dropWhile (· != d) with
      | nil => rfl
      | cons e es => rfl

theorem find?_cons {c d : Char} (h : c ≠ d) (cs : List Char) :
    find? [d] (c :: cs) = (splitFirst? d cs).map fun parts => c.utf8Size + size parts.1 := by
  rw [find?_cons_of_ne h, find?_singleton, Option.map_map]
  rfl

/-! ## Bytes and characters -/

theorem length_bytes (cs : List Char) : (bytes cs).length = size cs := by
  induction cs with
  | nil => rfl
  | cons c cs ih =>
    rw [bytes, List.flatMap_cons, List.length_append, String.length_utf8EncodeChar, size_cons, ← ih]
    rfl

theorem bytes_append (cs ds : List Char) : bytes (cs ++ ds) = bytes cs ++ bytes ds :=
  List.flatMap_append

theorem exists_utf8EncodeChar_eq_cons (c : Char) : ∃ b bs, String.utf8EncodeChar c = b :: bs := by
  apply List.exists_cons_of_ne_nil
  intro hnil
  have hlength := String.length_utf8EncodeChar c
  rw [hnil, List.length_nil] at hlength
  have hpos := Char.utf8Size_pos c
  omega

/-- The only byte of a character of ASCII is its number; the bytes of other characters lie above
those of ASCII. -/
theorem toNat_of_mem_utf8EncodeChar {c : Char} {b : UInt8} (h : b ∈ String.utf8EncodeChar c) :
    (b.toNat = c.toNat ∧ c.toNat < 128) ∨ (128 ≤ b.toNat ∧ 128 ≤ c.toNat) := by
  have hc : c.toNat = c.val.toNat := rfl
  unfold String.utf8EncodeChar at h
  simp only at h
  rw [hc]
  generalize c.val.toNat = n at h
  split at h
  · rw [List.mem_singleton] at h
    subst h
    simp only [UInt8.toNat_ofNat']
    omega
  · right
    split at h
    all_goals try split at h
    all_goals
      simp only [List.mem_cons, List.not_mem_nil, or_false] at h
      rcases h with rfl | rfl | rfl | rfl
    all_goals
      simp only [UInt8.toNat_ofNat']
      omega

/-- A byte of a character is a given one of ASCII exactly if the character is that one. -/
theorem byte_beq {c d : Char} {b : UInt8} (h : b ∈ String.utf8EncodeChar c) (hd : d.toNat < 128) :
    (b == byte d) = (c == d) := by
  have hbyte : (byte d).toNat = d.toNat := by
    simp only [byte, UInt8.toNat_ofNat']
    omega
  rw [Bool.eq_iff_iff, beq_iff_eq, beq_iff_eq, ← UInt8.toNat_inj, hbyte, ← Char.toNat_inj]
  have := toNat_of_mem_utf8EncodeChar h
  omega

theorem skipBytes?_eq (p : UInt8 → Bool) (bs bs' : List UInt8) :
    skipBytes? p (bs ++ bs') bs.length = some (bs.length + (bs'.takeWhile p).length) := by
  induction bs' generalizing bs with
  | nil =>
    rw [skipBytes?, if_neg (by simp)]
    rfl
  | cons b bs' ih =>
    have hin : bs.length < (bs ++ b :: bs').length := by simp
    rw [skipBytes?, if_pos hin, List.getElem?_append_right (Nat.le_refl _), Nat.sub_self]
    by_cases hb : p b = true
    · have htail := ih (bs ++ [b])
      rw [List.append_assoc, List.singleton_append, List.length_append, List.length_singleton]
        at htail
      simp [hb, htail, Nat.add_assoc, Nat.add_comm 1]
    · simp [hb]

section

variable {p : UInt8 → Bool} {q : Char → Bool}
  (hagree : ∀ c, ∀ b ∈ String.utf8EncodeChar c, p b = q c)

include hagree

/-- Bytes are taken character by character. -/
theorem takeWhile_bytes (cs : List Char) : (bytes cs).takeWhile p = bytes (cs.takeWhile q) := by
  induction cs with
  | nil => rfl
  | cons c cs ih =>
    have hbytes : bytes (c :: cs) = String.utf8EncodeChar c ++ bytes cs := rfl
    by_cases hc : q c = true
    · have hall : ∀ b ∈ String.utf8EncodeChar c, p b = true :=
        fun b hb => (hagree c b hb).trans hc
      rw [hbytes, List.takeWhile_append_of_pos hall, List.takeWhile_cons, if_pos hc, ih]
      rfl
    · obtain ⟨b, bs, hencode⟩ := exists_utf8EncodeChar_eq_cons c
      have hb : ¬ p b = true := by
        rw [hagree c b (by rw [hencode]; exact List.mem_cons_self)]
        exact hc
      rw [hbytes, hencode, List.cons_append, List.takeWhile_cons, if_neg hb, List.takeWhile_cons,
        if_neg hc]
      rfl

/-- Stepping over bytes ends between two characters. -/
theorem skipBytes?_append :
    skipBytes? p (bytes (before ++ rest)) (size before) =
      some (size before + size (rest.takeWhile q)) := by
  rw [bytes_append, ← length_bytes, skipBytes?_eq, takeWhile_bytes hagree, length_bytes,
    length_bytes]

end

theorem getElem?_bytes_append_nil : (bytes (before ++ []))[size before]? = none := by
  rw [List.append_nil, ← length_bytes]
  exact List.getElem?_eq_none (Nat.le_refl _)

/-- The byte at the beginning of a character is one of its bytes. -/
theorem getElem?_bytes_append (c : Char) : ∃ b ∈ String.utf8EncodeChar c,
    (bytes (before ++ c :: rest))[size before]? = some b := by
  obtain ⟨b, bs, hencode⟩ := exists_utf8EncodeChar_eq_cons c
  refine ⟨b, by rw [hencode]; exact List.mem_cons_self, ?_⟩
  have hbytes : bytes (c :: rest) = b :: (bs ++ bytes rest) := by
    rw [bytes, List.flatMap_cons, hencode]
    rfl
  rw [bytes_append, ← length_bytes, List.getElem?_append_right (Nat.le_refl _), Nat.sub_self,
    hbytes]
  rfl

end DotAttributes.Text
