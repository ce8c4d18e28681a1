import DotAttributes.Proofs.Record.LongestMatch
import Mathlib.Algebra.Group.Nat.Even
import Mathlib.Data.List.Chain
import Mathlib.Data.List.DropRight

/-!
# The tokens of a record label tile it

The tokens of a label follow each other without gaps from its start to its end, none of them is
empty, and no text stands behind text (`isChain_joinAtoms`). Which characters are marks is decided
by what stands in front of them: a backslash takes the meaning from the next character, and of a run
of backslashes every second one is taken itself. So a character that can be a mark is one exactly if
an even number of backslashes stands in front of it (`markBehind_iff`).
-/

namespace DotAttributes.Record

open Text

/-! ## Neighbours -/

/-- Two tokens of which at most one is text. -/
def Token.IsApart (token next : Token) : Prop :=
  ¬ (token.kind.isText = true ∧ next.kind.isText = true)

/-- No text stands behind text. -/
theorem isChain_joinAtoms (offset : Nat) (parts : List Atom) :
    (joinAtoms offset parts).IsChain Token.IsApart := by
  induction parts generalizing offset with
  | nil => exact .nil
  | cons atom parts ih =>
    have ih := ih (offset + size atom.text)
    rw [joinAtoms]
    unfold joinAtom
    split
    · exact .singleton _
    · next next rest htokens =>
      rw [htokens] at ih
      simp only
      split
      · next hboth =>
        -- the joined token is text, as the one that was there before
        have hnext : next.kind.isText = true := (Bool.and_eq_true_iff.1 hboth).2
        rw [List.isChain_cons] at ih ⊢
        exact ⟨fun after hafter htext => ih.1 after hafter ⟨hnext, htext.2⟩, ih.2⟩
      · next hboth =>
        refine List.isChain_cons_cons.2 ⟨fun htext => hboth ?_, ih⟩
        rw [Bool.and_eq_true]
        exact htext

/-! ## Marks -/

variable {offset n : Nat} {mark : Mark} {token : Token}

theorem utf8Size_char (mark : Mark) : mark.char.utf8Size = 1 := by
  cases mark <;> rfl

/-- A part adds one token that is a mark if it is one itself, and none otherwise. -/
theorem mem_joinAtom_iff {atom : Atom} {tokens : List Token} (hkind : token.kind = .mark mark) :
    token ∈ joinAtom offset atom tokens ↔
      atom = .mark mark ∧ token = mark.tokenAt offset ∨ token ∈ tokens := by
  have halone : token = ⟨atom.kind, atom.text, Span.ofSize offset (size atom.text)⟩ ↔
      atom = .mark mark ∧ token = mark.tokenAt offset := by
    constructor
    · rintro rfl
      cases atom <;> cases hkind
      exact ⟨rfl, rfl⟩
    · rintro ⟨rfl, rfl⟩
      rfl
  unfold joinAtom
  split
  · rw [List.mem_singleton, halone]
    simp
  · next next rest =>
    simp only
    split
    · next hboth =>
      -- neither the joined token nor the one that was there before is a mark
      rw [Bool.and_eq_true] at hboth
      have hatom : atom ≠ .mark mark := by
        rintro rfl
        cases hboth.1
      have hjoined (text : List Char) (span : Span) : token ≠ ⟨.text, text, span⟩ := by
        rintro rfl
        cases hkind
      have hnext : token ≠ next := by
        rintro rfl
        rw [hkind] at hboth
        cases hboth.2
      simp [hatom, hjoined, hnext]
    · rw [List.mem_cons, halone]

/-- The marks among the tokens are the marks among the parts. -/
theorem exists_mem_joinAtoms_iff {parts : List Atom} :
    (∃ token ∈ joinAtoms offset parts, token.kind = .mark mark ∧ token.span.start = n) ↔
      ∃ front rest, parts = front ++ .mark mark :: rest ∧
        n = offset + size (front.flatMap Atom.text) := by
  induction parts generalizing offset with
  | nil => simp [joinAtoms]
  | cons atom parts ih =>
    have hsplit : (∃ token ∈ joinAtoms offset (atom :: parts),
          token.kind = .mark mark ∧ token.span.start = n) ↔
        (atom = .mark mark ∧ n = offset) ∨
          ∃ token ∈ joinAtoms (offset + size atom.text) parts,
            token.kind = .mark mark ∧ token.span.start = n := by
      constructor
      · rintro ⟨token, hmem, hkind, hstart⟩
        rcases (mem_joinAtom_iff hkind).1 hmem with ⟨hatom, rfl⟩ | hmem
        · exact .inl ⟨hatom, hstart.symm⟩
        · exact .inr ⟨token, hmem, hkind, hstart⟩
      · rintro (⟨hatom, rfl⟩ | ⟨token, hmem, hkind, hstart⟩)
        · exact ⟨mark.tokenAt n, (mem_joinAtom_iff rfl).2 (.inl ⟨hatom, rfl⟩), rfl, rfl⟩
        · exact ⟨token, (mem_joinAtom_iff hkind).2 (.inr hmem), hkind, hstart⟩
    rw [hsplit, ih]
    constructor
    · rintro (⟨rfl, rfl⟩ | ⟨front, rest, rfl, hn⟩)
      · exact ⟨[], parts, rfl, rfl⟩
      · refine ⟨atom :: front, rest, rfl, ?_⟩
        rw [hn, List.flatMap_cons, size_append, Nat.add_assoc]
    · rintro ⟨front, rest, hparts, hn⟩
      rcases List.cons_eq_append_iff.1 hparts with ⟨rfl, heq⟩ | ⟨front, rfl, heq⟩
      · cases heq
        exact .inl ⟨rfl, hn⟩
      · refine .inr ⟨front, rest, heq, ?_⟩
        rw [hn, List.flatMap_cons, size_append, Nat.add_assoc]

/-! ## Backslashes -/

/-- The number of backslashes right in front of the end of a text. -/
def backslashes (front : List Char) : Nat := (front.rtakeWhile (· == '\\')).length

theorem backslashes_le (front : List Char) : backslashes front ≤ front.length :=
  (List.rtakeWhile_suffix _ _).length_le

/-- A character in front of a text adds to them if the text is nothing else and so is it. -/
theorem backslashes_cons (c : Char) (front : List Char) :
    backslashes (c :: front) =
      if backslashes front = front.length ∧ c = '\\' then front.length + 1
      else backslashes front := by
  simp only [backslashes, List.rtakeWhile, List.length_reverse, List.reverse_cons,
    List.takeWhile_append]
  by_cases hall : (front.reverse.takeWhile (· == '\\')).length = front.length
  · by_cases hc : c = '\\' <;> simp [hall, hc]
  · simp [hall]

/-- An escaped character and its backslash leave the parity as it is. -/
theorem even_backslashes_cons_cons (c : Char) (front : List Char) :
    Even (backslashes ('\\' :: c :: front)) ↔ Even (backslashes front) := by
  have hle := backslashes_le front
  rw [backslashes_cons, backslashes_cons, List.length_cons]
  by_cases hall : backslashes front = front.length
  · by_cases hc : c = '\\'
    · simp [hall, hc, Nat.even_add]
    · simp [hall, hc]
  · have hne : backslashes front ≠ front.length + 1 := by omega
    simp [hall, hne]

/-- A mark stands behind a text exactly if the parts in front of it make up the text. -/
def MarkBehind (mark : Mark) (text : List Char) (parts : List Atom) : Prop :=
  ∃ front rest, parts = front ++ .mark mark :: rest ∧ front.flatMap Atom.text = text

theorem markBehind_nil (mark : Mark) (parts : List Atom) :
    MarkBehind mark [] (.mark mark :: parts) :=
  ⟨[], parts, rfl, rfl⟩

/-- A part that is taken whole may be left out. -/
theorem markBehind_cons_iff {text : List Char} {atom : Atom} {parts : List Atom} :
    MarkBehind mark (atom.text ++ text) (atom :: parts) ↔ MarkBehind mark text parts := by
  constructor
  · rintro ⟨front, rest, hparts, htext⟩
    rcases List.cons_eq_append_iff.1 hparts with ⟨rfl, -⟩ | ⟨front, rfl, hparts⟩
    · exact absurd (List.append_eq_nil_iff.1 htext.symm).1 atom.text_ne_nil
    · exact ⟨front, rest, (List.cons.inj hparts).2, List.append_cancel_left htext⟩
  · rintro ⟨front, rest, rfl, rfl⟩
    exact ⟨atom :: front, rest, rfl, List.flatMap_cons⟩

/-- Nothing stands behind a backslash whose character is taken with it. -/
theorem not_markBehind_backslash (c : Char) (parts : List Atom) :
    ¬ MarkBehind mark ['\\'] (.escaped c :: parts) := by
  rintro ⟨front, rest, hparts, htext⟩
  rcases List.cons_eq_append_iff.1 hparts with ⟨rfl, -⟩ | ⟨front, rfl, -⟩
  · cases htext
  · cases htext

/-- **Marks.** A character that can be a mark is one exactly if the number of backslashes right in
front of it is even. -/
theorem markBehind_iff (mark : Mark) (before after : List Char) :
    MarkBehind mark before (atoms (before ++ mark.char :: after)) ↔ Even (backslashes before) := by
  fun_induction atoms before with
  | case1 =>
    have hatoms : atoms ([] ++ mark.char :: after) = .mark mark :: atoms after := by
      cases mark <;> rfl
    rw [hatoms]
    exact iff_of_true (markBehind_nil mark _) Even.zero
  | case2 => exact iff_of_false (not_markBehind_backslash mark.char _) Nat.not_even_one
  | case3 c cs ih =>
    rw [even_backslashes_cons_cons, ← ih]
    show MarkBehind mark ((Atom.escaped c).text ++ cs)
      (.escaped c :: atoms (cs ++ mark.char :: after)) ↔ _
    exact markBehind_cons_iff
  | case4 c cs hend hne ih =>
    have hc : c ≠ '\\' := by
      rintro rfl
      cases cs with
      | nil => exact hend rfl rfl
      | cons d cs => exact hne d cs rfl rfl
    have hatoms : atoms (c :: cs ++ mark.char :: after) =
        .ofChar c :: atoms (cs ++ mark.char :: after) := by
      rw [List.cons_append, atoms]
      · exact fun h => absurd h hc
      · exact fun _ _ h => absurd h hc
    rw [hatoms, backslashes_cons, if_neg fun h => hc h.2, ← ih]
    have htext : c :: cs = (Atom.ofChar c).text ++ cs := by rw [text_ofChar]; rfl
    rw [htext]
    exact markBehind_cons_iff

/-! ## Labels -/

/-- A mark covers one byte. -/
theorem stop_of_mark {cs : List Char} (htoken : token ∈ tokens cs)
    (hkind : token.kind = .mark mark) : token.span.stop = token.span.start + 1 := by
  obtain ⟨hstands, hfaithful⟩ := standsAt_tokens cs token htoken
  rw [hstands.stop_eq, hfaithful mark hkind, size_cons, size_nil, utf8Size_char]

/-- **Tokens.** A scanner that takes the longest match never gets stuck on a label, and finds its
tokens. They cover the label one after the other, none of them is empty, no text stands behind text,
and a byte is in a mark exactly if it is a character that can be one and an even number of
backslashes stands in front of it. -/
theorem tokens_isTiling (cs : List Char) :
    (∃ pieces, IsMatching 0 cs pieces) ∧
      (∀ pieces, IsMatching 0 cs pieces → gather [] pieces = .ok ((tokens cs).map Indexed.spot)) ∧
      Tiles 0 cs (tokens cs) ∧
      (∀ token ∈ tokens cs, token.span.start < token.span.stop) ∧
      (tokens cs).IsChain Token.IsApart ∧
      ∀ n mark, (∃ token ∈ tokens cs, token.kind = .mark mark ∧
          token.span.start ≤ n ∧ n < token.span.stop) ↔
        ∃ before after, cs = before ++ mark.char :: after ∧ size before = n ∧
          Even (backslashes before) := by
  refine ⟨exists_isMatching 0 cs, fun pieces => gather_eq_tokens, tiles_tokens cs,
    fun token htoken => ?_, isChain_joinAtoms 0 _, fun n mark => ?_⟩
  · exact (standsAt_tokens cs token htoken).1.start_lt_stop
      (text_ne_nil_of_mem_joinAtoms 0 token htoken)
  · have hbyte : (∃ token ∈ tokens cs, token.kind = .mark mark ∧
          token.span.start ≤ n ∧ n < token.span.stop) ↔
        ∃ token ∈ tokens cs, token.kind = .mark mark ∧ token.span.start = n := by
      refine exists_congr fun token => and_congr_right fun htoken => and_congr_right fun hkind => ?_
      have hstop := stop_of_mark htoken hkind
      omega
    rw [hbyte, tokens, exists_mem_joinAtoms_iff]
    constructor
    · rintro ⟨front, rest, hatoms, hn⟩
      have hcs : cs = front.flatMap Atom.text ++ mark.char :: rest.flatMap Atom.text := by
        rw [← flatMap_text_atoms cs, hatoms]
        simp [Atom.text]
      have hmark : MarkBehind mark (front.flatMap Atom.text)
          (atoms (front.flatMap Atom.text ++ mark.char :: rest.flatMap Atom.text)) := by
        rw [← hcs]
        exact ⟨front, rest, hatoms, rfl⟩
      exact ⟨_, _, hcs, by rw [hn, Nat.zero_add], (markBehind_iff mark _ _).1 hmark⟩
    · rintro ⟨before, after, rfl, rfl, heven⟩
      obtain ⟨front, rest, hatoms, rfl⟩ := (markBehind_iff mark before after).2 heven
      exact ⟨front, rest, hatoms, (Nat.zero_add _).symm⟩

end DotAttributes.Record
