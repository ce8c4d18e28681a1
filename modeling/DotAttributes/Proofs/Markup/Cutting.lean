import DotAttributes.Markup.Token
import DotAttributes.Proofs.Slice

/-!
# Cutting texts into tokens

`CutsInto` says what a text is cut into when another one stands behind it, and in which mode the
scanner goes on there. Cuts of texts that follow each other go together (`CutsInto.append`). The
other statements give the cuts of single tokens, with the condition on what stands behind them
that makes them end where they should.
-/

namespace DotAttributes.Markup

/-- Cut in a mode, a text is the given tokens, and what stands behind it is cut in another. -/
structure CutsInto (mode next : Mode) (text rest : List Char) (offset : Nat)
    (tokens : List Token) : Prop where
  tokens_eq : (lexFrom mode offset (text ++ rest)).tokens =
    tokens ++ (lexFrom next (offset + Text.size text) rest).tokens
  unclosed_eq : (lexFrom mode offset (text ++ rest)).unclosed =
    (lexFrom next (offset + Text.size text) rest).unclosed

/-- The token that a text is. -/
def Token.at (kind : TokenKind) (text : List Char) (offset : Nat) : Token :=
  ⟨kind, text, Span.ofSize offset (Text.size text)⟩

namespace CutsInto

variable {mode middle next : Mode} {text text' rest : List Char} {offset : Nat}
  {tokens tokens' : List Token}

theorem nil : CutsInto mode mode [] rest offset [] := ⟨rfl, rfl⟩

theorem append (h : CutsInto mode middle text (text' ++ rest) offset tokens)
    (h' : CutsInto middle next text' rest (offset + Text.size text) tokens') :
    CutsInto mode next (text ++ text') rest offset (tokens ++ tokens') := by
  constructor
  · rw [List.append_assoc, h.tokens_eq, h'.tokens_eq, Text.size_append, List.append_assoc,
      Nat.add_assoc]
  · rw [List.append_assoc, h.unclosed_eq, h'.unclosed_eq, Text.size_append, Nat.add_assoc]

/-- A piece that is closed is cut into its token. -/
theorem of_token {c : Char} {cs : List Char} {kind : TokenKind}
    (h : nextPiece mode c (cs ++ rest) = ⟨c :: cs, some kind, none, next, rest⟩) :
    CutsInto mode next (c :: cs) rest offset [Token.at kind (c :: cs) offset] := by
  constructor <;>
  · rw [List.cons_append, lexFrom]
    simp only [h]
    rfl

/-- A piece that is passed over is cut into nothing. -/
theorem of_skipped {c : Char} {cs : List Char}
    (h : nextPiece mode c (cs ++ rest) = ⟨c :: cs, none, none, next, rest⟩) :
    CutsInto mode next (c :: cs) rest offset [] := by
  constructor <;>
  · rw [List.cons_append, lexFrom]
    simp only [h]
    rfl

end CutsInto

/-! ## Outside a tag -/

/-- Text ends in front of a tag. -/
theorem cutsInto_text {cs rest : List Char} {offset : Nat} (hne : cs ≠ []) (hcs : '<' ∉ cs)
    (hrest : ∀ c ∈ rest.head?, c = '<') :
    CutsInto .content .content cs rest offset [Token.at .text cs offset] := by
  obtain ⟨c, cs, rfl⟩ := List.exists_cons_of_ne_nil hne
  have hc : c ≠ '<' := fun h => hcs (h ▸ List.mem_cons_self)
  have hall : ∀ d ∈ cs, (d != '<') = true := fun d hd =>
    bne_iff_ne.2 fun h => hcs (h ▸ List.mem_cons_of_mem _ hd)
  have hhead : ∀ d ∈ rest.head?, (d != '<') = false := fun d hd => by simp [hrest d hd]
  refine CutsInto.of_token ?_
  show contentPiece c (cs ++ rest) = _
  unfold contentPiece
  split
  · exact absurd rfl hc
  · exact absurd rfl hc
  · exact absurd rfl hc
  · rw [Text.takeWhile_append_of_all hall hhead, Text.dropWhile_append_of_all hall hhead]

/-- `<` in front of a name opens a tag. -/
theorem cutsInto_tagOpen {rest : List Char} {offset : Nat}
    (hrest : ∃ c ∈ rest.head?, isNameChar c = true) :
    CutsInto .content .tag ['<'] rest offset [Token.at .tagOpen ['<'] offset] := by
  obtain ⟨c, hhead, hc⟩ := hrest
  obtain ⟨rest, rfl⟩ := List.head?_eq_some_iff.1 hhead
  refine CutsInto.of_token ?_
  show contentPiece '<' (c :: rest) = _
  unfold contentPiece
  split
  · next h =>
    cases h
    cases hc
  · next h =>
    cases h
    cases hc
  · rfl
  · next hopen _ _ => exact (hopen rfl).elim

/-- `</` opens a close tag. -/
theorem cutsInto_closeTagOpen {rest : List Char} {offset : Nat} :
    CutsInto .content .tag ['<', '/'] rest offset [Token.at .closeTagOpen ['<', '/'] offset] :=
  CutsInto.of_token rfl

/-! ## Inside a tag -/

/-- A name has characters, and only those of names. -/
structure IsName (cs : List Char) : Prop where
  ne_nil : cs ≠ []
  chars : ∀ c ∈ cs, isNameChar c = true

theorem IsName.exists_head {cs : List Char} (h : IsName cs) (rest : List Char) :
    ∃ c ∈ (cs ++ rest).head?, isNameChar c = true := by
  obtain ⟨c, cs, rfl⟩ := List.exists_cons_of_ne_nil h.ne_nil
  exact ⟨c, rfl, h.chars c List.mem_cons_self⟩

theorem toNat_of_isNameChar {c : Char} (h : isNameChar c = true) :
    45 ≤ c.toNat ∧ c.toNat ≤ 122 := by
  have hrange {low high : UInt32} (hc : (decide (c.val ≥ low) && decide (c.val ≤ high)) = true) :
      low.toNat ≤ c.toNat ∧ c.toNat ≤ high.toNat :=
    (Bool.and_eq_true_iff.1 hc).imp of_decide_eq_true of_decide_eq_true
  simp only [isNameChar, Bool.or_eq_true, beq_iff_eq] at h
  rcases h with ((((halphanum | rfl) | rfl) | rfl) | rfl)
  · have hcases : ((c.isUpper || c.isLower) || c.isDigit) = true := halphanum
    simp only [Bool.or_eq_true] at hcases
    rcases hcases with (hupper | hlower) | hdigit
    · have hupper : 65 ≤ c.toNat ∧ c.toNat ≤ 90 := of_decide_eq_true hupper
      omega
    · have hlower : 97 ≤ c.toNat ∧ c.toNat ≤ 122 := hrange hlower
      omega
    · have hdigit : 48 ≤ c.toNat ∧ c.toNat ≤ 57 := hrange hdigit
      omega
  all_goals decide

/-- Characters of names are no blanks. -/
theorem isBlank_of_isNameChar {c : Char} (h : isNameChar c = true) : Text.isBlank c = false := by
  obtain ⟨hlow, hhigh⟩ := toNat_of_isNameChar h
  simp [Text.isBlank, Text.blankRanges]
  omega

theorem tagPiece_of_isNameChar {c : Char} (h : isNameChar c = true) (cs : List Char) :
    tagPiece c cs =
      ⟨c :: cs.takeWhile isNameChar, some .name, none, .tag, cs.dropWhile isNameChar⟩ := by
  have hne (d : Char) (hd : isNameChar d = false) : c ≠ d := by
    rintro rfl
    rw [h] at hd
    cases hd
  have hquote : isQuote c = false := by
    simp [isQuote, hne '"' rfl, hne '\'' rfl]
  simp [tagPiece, isBlank_of_isNameChar h, hne '>' rfl, hne '/' rfl, hne '=' rfl, hquote, h]

/-- A name ends in front of a character that cannot stand in it. -/
theorem cutsInto_name {name rest : List Char} {offset : Nat} (hname : IsName name)
    (hrest : ∀ c ∈ rest.head?, isNameChar c = false) :
    CutsInto .tag .tag name rest offset [Token.at .name name offset] := by
  obtain ⟨c, cs, rfl⟩ := List.exists_cons_of_ne_nil hname.ne_nil
  obtain ⟨hc, hcs⟩ := List.forall_mem_cons.1 hname.chars
  refine CutsInto.of_token ((tagPiece_of_isNameChar hc _).trans ?_)
  rw [Text.takeWhile_append_of_all hcs hrest, Text.dropWhile_append_of_all hcs hrest]

/-- A space in front of a name is passed over. -/
theorem cutsInto_space {rest : List Char} {offset : Nat}
    (hrest : ∃ c ∈ rest.head?, isNameChar c = true) :
    CutsInto .tag .tag [' '] rest offset [] := by
  obtain ⟨c, hhead, hc⟩ := hrest
  obtain ⟨rest, rfl⟩ := List.head?_eq_some_iff.1 hhead
  refine CutsInto.of_skipped ?_
  show tagPiece ' ' (c :: rest) = _
  have hblank : Text.isBlank ' ' = true := by decide
  simp [tagPiece, hblank, isBlank_of_isNameChar hc]

theorem cutsInto_equals {rest : List Char} {offset : Nat} :
    CutsInto .tag .tag ['='] rest offset [Token.at .equals ['='] offset] :=
  CutsInto.of_token rfl

/-- A value ends at the quote it started with; anything else may stand in it. -/
theorem cutsInto_value {value rest : List Char} {offset : Nat} (h : '"' ∉ value) :
    CutsInto .tag .tag ('"' :: value ++ ['"']) rest offset
      [Token.at .value ('"' :: value ++ ['"']) offset] := by
  refine CutsInto.of_token ?_
  show valuePiece '"' ((value ++ ['"']) ++ rest) = _
  rw [List.append_assoc, List.singleton_append, valuePiece,
    Text.splitFirst?_append_cons h]
  rfl

/-- `>` leads out of a tag. -/
theorem cutsInto_tagClose {rest : List Char} {offset : Nat} :
    CutsInto .tag .content ['>'] rest offset [Token.at .tagClose ['>'] offset] :=
  CutsInto.of_token rfl

/-- So does `/>`. -/
theorem cutsInto_selfClose {rest : List Char} {offset : Nat} :
    CutsInto .tag .content ['/', '>'] rest offset [Token.at .selfClose ['/', '>'] offset] :=
  CutsInto.of_token rfl

end DotAttributes.Markup
