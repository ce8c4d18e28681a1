import DotAttributes.Proofs.Record.Indexed
import DotAttributes.Proofs.Record.RoundTrip
import Mathlib.Data.Nat.Find

/-!
# Longest matches

The tokens of a record label can be described without parts: by what each kind of token accepts. A
mark is its character, a text is characters that stand for themselves, alone or behind a backslash,
and a trailing backslash is a backslash. A scanner that knows these rules takes the longest
beginning of what is left that one of them accepts, and a character by itself if none does
(`IsMatching`). What it has found is gathered into tokens, text that stands right behind text joined
to it (`gather`).

Such a scanner never meets a character that no rule accepts (`exists_longest`). Its texts reach to
the next mark or to the end, or to a backslash at the very end (`IsLongest.endsText`), so what it
has found is gathered into the tokens of the label (`gather_eq_tokens`).
-/

namespace DotAttributes.Record

open Text

/-! ## Rules -/

/-- What a kind of token accepts. -/
inductive TokenKind.Accepts : TokenKind → List Char → Prop
  | mark (mark : Mark) : Accepts (.mark mark) [mark.char]
  | text {cs : List Char} (ne_nil : cs ≠ []) (written : IsWritten cs) : Accepts .text cs
  | trailingBackslash : Accepts .trailingBackslash ['\\']

/-- A kind of token accepts a beginning of a text, and none accepts a longer one. -/
structure IsLongest (kind : TokenKind) (text rest : List Char) : Prop where
  accepts : kind.Accepts text
  longest : ∀ {other : TokenKind} {longer : List Char},
    other.Accepts longer → longer <+: text ++ rest → longer.length ≤ text.length

/-- What a scanner finds in a text that starts at `offset`: the longest beginning that is accepted,
and what it finds behind that. A character at which nothing is accepted is found as such. -/
inductive IsMatching : Nat → List Char → List (Located (Option TokenKind)) → Prop
  | nil {offset : Nat} : IsMatching offset [] []
  | found {offset : Nat} {kind : TokenKind} {text rest : List Char}
      {pieces : List (Located (Option TokenKind))} (longest : IsLongest kind text rest)
      (rest_matching : IsMatching (offset + size text) rest pieces) :
      IsMatching offset (text ++ rest) (⟨some kind, Span.ofSize offset (size text)⟩ :: pieces)
  | stuck {offset : Nat} {c : Char} {rest : List Char}
      {pieces : List (Located (Option TokenKind))}
      (not_accepts : ∀ kind text, TokenKind.Accepts kind text → ¬ text <+: c :: rest)
      (rest_matching : IsMatching (offset + c.utf8Size) rest pieces) :
      IsMatching offset (c :: rest) (⟨none, Span.ofSize offset c.utf8Size⟩ :: pieces)

/-! ## Gathering -/

/-- Puts a token behind others. Text right behind text makes that one longer. -/
def push (tokens : List (Located TokenKind)) (next : Located TokenKind) :
    List (Located TokenKind) :=
  match tokens.getLast? with
  | none => [next]
  | some last =>
    if last.item.isText && next.item.isText && last.span.stop == next.span.start then
      tokens.dropLast ++ [⟨.text, last.span.through next.span⟩]
    else tokens ++ [next]

/-- Puts what has been found behind tokens; the place of the first character that is not accepted,
if there is one. -/
def gather (tokens : List (Located TokenKind)) :
    List (Located (Option TokenKind)) → Except Span (List (Located TokenKind))
  | [] => .ok tokens
  | ⟨none, span⟩ :: _ => .error span
  | ⟨some kind, span⟩ :: pieces => gather (push tokens ⟨kind, span⟩) pieces

/-- A token is put behind others as it is, unless it is text behind text. -/
theorem push_eq_append {tokens : List (Located TokenKind)} {next : Located TokenKind}
    (h : ∀ last ∈ tokens.getLast?, last.item.isText = true → next.item.isText = false) :
    push tokens next = tokens ++ [next] := by
  unfold push
  split
  · next hlast => rw [List.getLast?_eq_none_iff.1 hlast, List.nil_append]
  · next last hlast =>
    refine if_neg fun hjoin => ?_
    simp only [Bool.and_eq_true] at hjoin
    rw [h last hlast hjoin.1.1] at hjoin
    cases hjoin.1.2

/-- Text right behind text is joined to it. -/
theorem push_push_text {tokens : List (Located TokenKind)} {first next : Located TokenKind}
    (hfirst : first.item.isText = true) (hnext : next.item.isText = true)
    (hstop : first.span.stop = next.span.start) :
    push (tokens ++ [first]) next = tokens ++ [⟨.text, first.span.through next.span⟩] := by
  simp [push, hfirst, hnext, hstop]

/-! ## Longest matches -/

variable {offset : Nat} {kind : TokenKind} {cs text rest : List Char}

theorem TokenKind.Accepts.ne_nil (h : kind.Accepts text) : text ≠ [] := by
  cases h with
  | mark | trailingBackslash => exact List.cons_ne_nil _ _
  | text hne _ => exact hne

theorem IsWritten.append (h : IsWritten cs) (h' : IsWritten rest) : IsWritten (cs ++ rest) := by
  induction h with
  | nil => exact h'
  | plain hplain hne _ ih => exact .plain hplain hne ih
  | escaped _ ih => exact .escaped ih

/-- At every character some rule accepts something. -/
theorem exists_accepts (c : Char) (cs : List Char) :
    ∃ kind text, TokenKind.Accepts kind text ∧ text <+: c :: cs := by
  cases hmark : Mark.ofChar? c with
  | some mark =>
    refine ⟨.mark mark, [mark.char], .mark mark, ?_⟩
    rw [Mark.char_of_ofChar? hmark]
    exact List.prefix_append [c] cs
  | none =>
    by_cases hne : c = '\\'
    · subst hne
      exact ⟨_, _, .trailingBackslash, List.prefix_append ['\\'] cs⟩
    · exact ⟨_, _, .text (List.cons_ne_nil _ _) (.plain hmark hne .nil), List.prefix_append [c] cs⟩

/-- At every character there is a longest match. -/
theorem exists_longest (c : Char) (cs : List Char) :
    ∃ kind text rest, c :: cs = text ++ rest ∧ IsLongest kind text rest := by
  classical
  let accepted (n : Nat) : Prop :=
    ∃ kind text, TokenKind.Accepts kind text ∧ text <+: c :: cs ∧ text.length = n
  obtain ⟨kind, text, haccepts, hbegins⟩ := exists_accepts c cs
  have hbound : accepted (Nat.findGreatest accepted (c :: cs).length) :=
    Nat.findGreatest_spec hbegins.length_le ⟨kind, text, haccepts, hbegins, rfl⟩
  obtain ⟨kind, text, haccepts, ⟨rest, hrest⟩, hlength⟩ := hbound
  refine ⟨kind, text, rest, hrest.symm, haccepts, fun {other longer} hother hlonger => ?_⟩
  rw [hrest] at hlonger
  rw [hlength]
  exact Nat.le_findGreatest hlonger.length_le ⟨other, longer, hother, hlonger, rfl⟩

/-- Every text can be scanned. -/
theorem exists_isMatching (offset : Nat) (cs : List Char) :
    ∃ pieces, IsMatching offset cs pieces := by
  induction hlength : cs.length using Nat.strong_induction_on generalizing offset cs with
  | _ n ih =>
    cases cs with
    | nil => exact ⟨[], .nil⟩
    | cons c cs =>
      obtain ⟨kind, text, rest, htext, hlongest⟩ := exists_longest c cs
      have hpos := List.length_pos_iff.2 hlongest.accepts.ne_nil
      have hlt : rest.length < n := by
        rw [← hlength, htext, List.length_append]
        omega
      obtain ⟨pieces, hpieces⟩ := ih rest.length hlt (offset + size text) rest rfl
      rw [htext]
      exact ⟨_, .found hlongest hpieces⟩

/-- A longest text stops at a mark or at the end, or at a backslash at the very end. -/
theorem IsLongest.endsText (h : IsLongest .text text rest) (hwritten : IsWritten text) :
    EndsText rest ∨ rest = ['\\'] := by
  have hshort {more after : List Char} (hmore : IsWritten more) (hne : more ≠ [])
      (hrest : rest = more ++ after) : False := by
    have hlonger := h.longest (.text (List.append_ne_nil_of_right_ne_nil text hne)
      (hwritten.append hmore)) ⟨after, by rw [hrest, List.append_assoc]⟩
    have hpos := List.length_pos_iff.2 hne
    rw [List.length_append] at hlonger
    omega
  cases rest with
  | nil => exact .inl nofun
  | cons c rest =>
    cases hmark : Mark.ofChar? c with
    | some mark =>
      refine .inl ?_
      rw [← Mark.char_of_ofChar? hmark]
      exact endsText_mark mark rest
    | none =>
      by_cases hne : c = '\\'
      · subst hne
        cases rest with
        | nil => exact .inr rfl
        | cons d rest =>
          exact (hshort (.escaped (c := d) .nil) (List.cons_ne_nil _ _) rfl).elim
      · exact (hshort (.plain hmark hne .nil) (List.cons_ne_nil _ _) rfl).elim

/-- A backslash is found as a token of its own only at the very end. -/
theorem IsLongest.rest_eq_nil (h : IsLongest .trailingBackslash ['\\'] rest) : rest = [] := by
  cases rest with
  | nil => rfl
  | cons c rest =>
    have hlonger := h.longest (.text (List.cons_ne_nil _ _) (.escaped (c := c) .nil))
      ⟨rest, rfl⟩
    simp at hlonger

/-! ## Tokens -/

theorem IsWritten.not_endsText (hcs : IsWritten cs) (hne : cs ≠ []) : ¬ EndsText (cs ++ rest) := by
  intro h
  cases hcs with
  | nil => exact hne rfl
  | @plain c cs hplain _ _ =>
    have hmark := h c rfl
    rw [hplain] at hmark
    cases hmark
  | escaped _ => cases h '\\' rfl

/-- A backslash at the very end is joined to the text in front of it. -/
theorem IsWritten.tokensAt_trailing (hcs : IsWritten cs) (hne : cs ≠ []) (offset : Nat) :
    tokensAt offset (cs ++ ['\\']) =
      [⟨.text, cs ++ ['\\'], Span.ofSize offset (size (cs ++ ['\\']))⟩] := by
  have hjoin (atom : Atom) (hatom : atom.kind = .text) {cs : List Char}
      (ih : cs ≠ [] → ∀ offset, tokensAt offset (cs ++ ['\\']) =
        [⟨.text, cs ++ ['\\'], Span.ofSize offset (size (cs ++ ['\\']))⟩]) (offset : Nat) :
      joinAtom offset atom (tokensAt (offset + size atom.text) (cs ++ ['\\'])) =
        [⟨.text, atom.text ++ (cs ++ ['\\']),
          Span.ofSize offset (size (atom.text ++ (cs ++ ['\\'])))⟩] := by
    by_cases hnil : cs = []
    · subst hnil
      have hend (start : Nat) : tokensAt start ['\\'] =
          [⟨.trailingBackslash, ['\\'], Span.ofSize start (size ['\\'])⟩] := rfl
      rw [List.nil_append, hend]
      simp [joinAtom, hatom, TokenKind.isText, Span.ofSize, Nat.add_assoc]
    · rw [ih hnil]
      simp [joinAtom, hatom, TokenKind.isText, Span.ofSize, Nat.add_assoc]
  induction hcs generalizing offset with
  | nil => exact absurd rfl hne
  | @plain c cs hplain hc _ ih =>
    rw [List.cons_append, tokensAt, atoms_plain hplain hc]
    exact hjoin (.plain c) rfl ih offset
  | @escaped c cs _ ih => exact hjoin (.escaped c) rfl ih offset

/-- Only a trailing backslash is a backslash by itself. -/
theorem TokenKind.Accepts.eq_trailingBackslash (h : kind.Accepts text) (htext : text = ['\\']) :
    kind = .trailingBackslash := by
  cases h with
  | mark mark => cases mark <;> cases htext
  | text _ hwritten =>
    subst htext
    cases hwritten with
    | plain _ hne _ => exact absurd rfl hne
  | trailingBackslash => rfl

/-- Nothing is found at the end. -/
theorem IsMatching.eq_nil {pieces : List (Located (Option TokenKind))}
    (h : IsMatching offset cs pieces) (hcs : cs = []) : pieces = [] := by
  cases h with
  | nil => rfl
  | found hlongest _ => exact absurd (List.append_eq_nil_iff.1 hcs).1 hlongest.accepts.ne_nil
  | stuck => cases hcs

/-- A backslash at the very end is found as a token of its own. -/
theorem IsMatching.eq_trailingBackslash {pieces : List (Located (Option TokenKind))}
    (h : IsMatching offset cs pieces) (hcs : cs = ['\\']) :
    pieces = [⟨some .trailingBackslash, Span.ofSize offset (size ['\\'])⟩] := by
  cases h with
  | nil => cases hcs
  | found hlongest htail =>
    have haccepts := hlongest.accepts
    rcases List.append_eq_singleton_iff.1 hcs with ⟨rfl, -⟩ | ⟨rfl, rfl⟩
    · exact absurd rfl haccepts.ne_nil
    · rw [haccepts.eq_trailingBackslash rfl, htail.eq_nil rfl]
  | stuck hnot =>
    obtain ⟨kind, text, haccepts, hbegins⟩ := exists_accepts _ _
    exact absurd hbegins (hnot kind text haccepts)

/-- What is found behind tokens is gathered into the tokens of the text, if it does not go on with
the text in front of it. -/
theorem IsMatching.gather_eq {pieces : List (Located (Option TokenKind))}
    (h : IsMatching offset cs pieces) : ∀ {front : List (Located TokenKind)},
      (∀ last ∈ front.getLast?, last.item.isText = true → EndsText cs) →
      gather front pieces = .ok (front ++ (tokensAt offset cs).map Indexed.spot) := by
  induction h with
  | nil =>
    intro front _
    rw [gather]
    exact congrArg Except.ok (List.append_nil front).symm
  | @found offset kind text rest pieces hlongest htail ih =>
    intro front hfront
    have haccepts := hlongest.accepts
    cases haccepts with
    | mark mark =>
      have hpush : push front ⟨.mark mark, Span.ofSize offset (size [mark.char])⟩ =
          front ++ [⟨.mark mark, Span.ofSize offset (size [mark.char])⟩] :=
        push_eq_append fun _ _ _ => rfl
      rw [gather, hpush, ih (by simp [TokenKind.isText]), List.singleton_append, tokensAt_mark]
      simp [Indexed.spot, Mark.tokenAt]
    | text hne hwritten =>
      have hlast : ∀ last ∈ front.getLast?, last.item.isText = true →
          TokenKind.text.isText = false :=
        fun last hmem htext => absurd (hfront last hmem htext) (hwritten.not_endsText hne)
      rw [gather, push_eq_append hlast]
      rcases hlongest.endsText hwritten with hends | rfl
      · rw [ih fun _ _ _ => hends, hwritten.tokensAt_append hne hends]
        simp [Indexed.spot]
      · -- the backslash at the end is found by itself, and gathered into the text
        rw [htail.eq_trailingBackslash rfl, gather, push_push_text rfl rfl rfl, gather,
          hwritten.tokensAt_trailing hne]
        simp [Indexed.spot, Span.through, Span.ofSize, Nat.add_assoc]
    | trailingBackslash =>
      obtain rfl := hlongest.rest_eq_nil
      have hnot : ¬ EndsText (['\\'] ++ []) := by
        intro hends
        cases hends '\\' rfl
      have hlast : ∀ last ∈ front.getLast?, last.item.isText = true →
          TokenKind.trailingBackslash.isText = false :=
        fun last hmem htext => absurd (hfront last hmem htext) hnot
      rw [htail.eq_nil rfl, gather, push_eq_append hlast, gather]
      rfl
  | stuck hnot =>
    obtain ⟨kind, text, haccepts, hbegins⟩ := exists_accepts _ _
    exact absurd hbegins (hnot kind text haccepts)

/-- **Longest matches.** What a scanner finds is gathered into the tokens of the label. -/
theorem gather_eq_tokens {pieces : List (Located (Option TokenKind))}
    (h : IsMatching 0 cs pieces) : gather [] pieces = .ok ((tokens cs).map Indexed.spot) :=
  h.gather_eq nofun

end DotAttributes.Record
