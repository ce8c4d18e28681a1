import DotAttributes.Markup.Token
import DotAttributes.Proofs.Offsets

/-!
# Cutting markup labels into tokens by offsets

The scanner of markup labels as one that keeps an offset into the whole label. In each round it
slices off what is left, looks for the end of a token in it or steps over characters one by one,
and moves the offset there. Stepping over a character at the end of the label fails, and so does a
round that does not get further, for then the scanner would not come to an end.

A round of the scanner takes a piece of the label, inside a tag after the blanks in front of it
(`scanContent?_append`, `scanTag?_append`). So no round fails, and the tokens are the same
(`lex?_eq`).
-/

namespace DotAttributes.Markup.Indexed

open Text

/-! ## The scanner -/

/-- Where a round of the scanner gets to, the mode in which it leaves the scanner, and the token
and the fault that it notes. -/
structure Round where
  pos : Nat
  mode : Mode
  token : Option (Located TokenKind)
  unclosed : Option (Located Unclosed)

/-- A round that notes a token. -/
def Round.ofToken (mode : Mode) (kind : TokenKind) (start pos : Nat) : Round :=
  ⟨pos, mode, some ⟨kind, ⟨start, pos⟩⟩, none⟩

/-- Goes over a comment. -/
def skipComment? (text : List Char) (start : Nat) : Option Round := do
  let rest ← from? text start
  let body ← from? rest 4
  match find? ['-', '-', '>'] body with
  | some rel => some ⟨start + 4 + rel + 3, .content, none, none⟩
  | none => some ⟨size text, .content, none, some ⟨.comment, ⟨start, start + 4⟩⟩⟩

/-- A round outside a tag. -/
def scanContent? (text : List Char) (start : Nat) : Option Round := do
  let rest ← from? text start
  if (after? ['<', '!', '-', '-'] rest).isSome then skipComment? text start
  else if (after? ['<', '/'] rest).isSome then
    some (.ofToken .tag .closeTagOpen start (start + 2))
  else if (after? ['<'] rest).isSome then some (.ofToken .tag .tagOpen start (start + 1))
  else
    match find? ['<'] rest with
    | some rel => some (.ofToken .content .text start (start + rel))
    | none => some (.ofToken .content .text start (size text))

/-- Goes over a value, up to the quote that closes it. -/
def scanValue? (text : List Char) (quote : Char) (start pos : Nat) : Option Round := do
  let rest ← from? text pos
  match find? [quote] rest with
  | some rel => some (.ofToken .tag .value start (pos + rel + quote.utf8Size))
  | none =>
    some ⟨size text, .tag, some ⟨.value, ⟨start, size text⟩⟩,
      some ⟨.value, ⟨start, start + 1⟩⟩⟩

/-- Takes a token inside a tag. -/
def scanToken? (text : List Char) (start : Nat) : Option Round := do
  let (c, pos) ← advance? text start
  let next ← peek? text pos
  if c = '>' then some (.ofToken .content .tagClose start pos)
  else if c = '/' ∧ next = some '>' then
    let (_, pos) ← advance? text pos
    some (.ofToken .content .selfClose start pos)
  else if c = '=' then some (.ofToken .tag .equals start pos)
  else if isQuote c then scanValue? text c start pos
  else if isNameChar c then
    let pos ← skipWhile? isNameChar text pos
    some (.ofToken .tag .name start pos)
  else some (.ofToken .tag .unknown start pos)

/-- A round inside a tag. -/
def scanTag? (text : List Char) (pos : Nat) : Option Round := do
  let start ← skipWhile? isBlank text pos
  if size text ≤ start then some ⟨start, .tag, none, none⟩ else scanToken? text start

/-- A round. -/
def scan? (text : List Char) (pos : Nat) : Mode → Option Round
  | .content => scanContent? text pos
  | .tag => scanTag? text pos

/-- What has been noted: the tokens, of which the last one marks the end, and the faults. -/
structure Noted where
  tokens : List (Located TokenKind)
  unclosed : List (Located Unclosed)

/-- Cuts a label into tokens from an offset on. -/
def lexFrom? (text : List Char) (mode : Mode) (pos : Nat) : Option Noted :=
  if _h : pos < size text then do
    let round ← scan? text pos mode
    if _h' : pos < round.pos then
      let tail ← lexFrom? text round.mode round.pos
      some ⟨round.token.toList ++ tail.tokens, round.unclosed.toList ++ tail.unclosed⟩
    else none
  else some ⟨[⟨.eof, ⟨size text, pos⟩⟩], []⟩
termination_by size text - pos

/-- Cuts a label into tokens. -/
def lex? (text : List Char) : Option Noted := lexFrom? text .content 0

/-! ## Rounds and pieces -/

/-- The round that takes a piece. -/
def Round.ofPiece (offset : Nat) (piece : Piece) : Round :=
  ⟨offset + size piece.taken, piece.mode,
    piece.kind.map (⟨·, ⟨offset, offset + size piece.taken⟩⟩),
    piece.unclosed.map (Unclosed.locate offset)⟩

/-- The kind and the place of a token. -/
def spot (token : Token) : Located TokenKind := ⟨token.kind, token.span⟩

/-- What is noted of the tokens of a label. -/
def Noted.ofLexed (lexed : Lexed) : Noted := ⟨lexed.tokens.map spot, lexed.unclosed⟩

variable (before : List Char)

/-- The end of a comment is found where the comment is split off. -/
theorem find?_splitComment? (cs : List Char) :
    (find? ['-', '-', '>'] cs).map (· + 3) = (splitComment? cs).map fun parts => size parts.1 := by
  fun_induction splitComment? cs with
  | case1 rest => rfl
  | case2 => rfl
  | case3 c cs hno ih =>
    have hafter : ¬ (after? ['-', '-', '>'] (c :: cs)).isSome = true := by
      rw [isSome_after?_iff]
      rintro ⟨rest, heq⟩
      cases heq
      exact hno rest rfl rfl
    have hadd : (· + 3) ∘ (c.utf8Size + ·) = (c.utf8Size + ·) ∘ (· + 3) :=
      funext fun n => Nat.add_assoc c.utf8Size n 3
    rw [find?, if_neg hafter, Option.map_map, hadd, ← Option.map_map, ih, Option.map_map,
      Option.map_map]
    rfl

/-! ## Outside a tag -/

theorem skipComment?_append (cs : List Char) :
    skipComment? (before ++ ['<', '!', '-', '-'] ++ cs) (size before) =
      some (Round.ofPiece (size before) (commentPiece cs)) := by
  have hopen : size ['<', '!', '-', '-'] = 4 := by decide
  have hbody : from? (['<', '!', '-', '-'] ++ cs) 4 = some cs := by
    rw [← hopen, from?_append]
  have hfind := find?_splitComment? cs
  rw [List.append_assoc, skipComment?, from?_append]
  simp only [Option.bind_eq_bind, Option.bind_some, hbody]
  unfold commentPiece
  cases hsplit : splitComment? cs with
  | none =>
    rw [hsplit, Option.map_none, Option.map_eq_none_iff] at hfind
    simp only [hfind, Round.ofPiece, size_append, hopen]
    rfl
  | some parts =>
    rw [hsplit, Option.map_some, Option.map_eq_some_iff] at hfind
    obtain ⟨rel, hrel, hsize⟩ := hfind
    have hstop : size before + 4 + rel + 3 = size before + (4 + size parts.1) := by omega
    simp only [hrel, Round.ofPiece, size_append, hopen, hstop]
    rfl

/-- A round outside a tag takes the next piece. -/
theorem scanContent?_append (c : Char) (cs : List Char) :
    scanContent? (before ++ c :: cs) (size before) =
      some (Round.ofPiece (size before) (contentPiece c cs)) := by
  fun_cases contentPiece c cs with
  | case1 cs =>
    have hstarts : (after? ['<', '!', '-', '-'] ('<' :: '!' :: '-' :: '-' :: cs)).isSome = true :=
      isSome_after?_iff.2 ⟨cs, rfl⟩
    have hround := skipComment?_append before cs
    rw [List.append_assoc] at hround
    rw [scanContent?, from?_append]
    simp only [Option.bind_eq_bind, Option.bind_some, if_pos hstarts]
    exact hround
  | case2 cs =>
    rw [scanContent?, from?_append]
    rfl
  | case3 cs hcomment hclose =>
    have hnot : ¬ (after? ['<', '!', '-', '-'] ('<' :: cs)).isSome = true := by
      rw [isSome_after?_iff]
      rintro ⟨rest, heq⟩
      cases heq
      exact hcomment rest rfl
    have hnot' : ¬ (after? ['<', '/'] ('<' :: cs)).isSome = true := by
      rw [isSome_after?_iff]
      rintro ⟨rest, heq⟩
      cases heq
      exact hclose rest rfl
    rw [scanContent?, from?_append]
    simp only [Option.bind_eq_bind, Option.bind_some, if_neg hnot, if_neg hnot']
    rfl
  | case4 c cs hcomment hclose hopen =>
    have hnot : ∀ pattern, ¬ (after? ('<' :: pattern) (c :: cs)).isSome = true := by
      intro pattern
      rw [isSome_after?_iff]
      rintro ⟨rest, heq⟩
      cases heq
      exact hopen rfl
    rw [scanContent?, from?_append]
    simp only [Option.bind_eq_bind, Option.bind_some, if_neg (hnot _), find?_cons hopen]
    rw [splitFirst?]
    cases hrest : cs.dropWhile (· != '<') with
    | nil =>
      have hall : cs.takeWhile (· != '<') = cs := by
        have hsplit := List.takeWhile_append_dropWhile (p := (· != '<')) (l := cs)
        rwa [hrest, List.append_nil] at hsplit
      rw [hall, size_append]
      rfl
    | cons d rest => rfl

/-! ## Inside a tag -/

theorem scanValue?_append (quote : Char) (cs : List Char) :
    scanValue? (before ++ quote :: cs) quote (size before) (size before + quote.utf8Size) =
      some (Round.ofPiece (size before) (valuePiece quote cs)) := by
  have hopen : size before + quote.utf8Size = size (before ++ [quote]) := by simp
  have htext : before ++ quote :: cs = before ++ [quote] ++ cs := by simp
  have hrest : from? (before ++ quote :: cs) (size before + quote.utf8Size) = some cs := by
    rw [hopen, htext, from?_append]
  rw [scanValue?, hrest]
  simp only [Option.bind_eq_bind, Option.bind_some, find?_singleton]
  unfold valuePiece
  cases splitFirst? quote cs with
  | none =>
    rw [size_append]
    rfl
  | some parts =>
    have hstop : size before + quote.utf8Size + size parts.1 + quote.utf8Size =
        size before + size (quote :: parts.1 ++ [quote]) := by
      simp only [size_append, size_cons, size_nil]
      omega
    simp only [Option.map_some, hstop]
    rfl

/-- What is taken inside a tag, behind blanks, is the next piece. -/
theorem scanToken?_append {c : Char} (hblank : isBlank c = false) (cs : List Char) :
    scanToken? (before ++ c :: cs) (size before) =
      some (Round.ofPiece (size before) (tagPiece c cs)) := by
  have hnotBlank : ¬ isBlank c = true := by
    rw [hblank]
    exact Bool.false_ne_true
  -- behind the first character
  have htext : before ++ c :: cs = before ++ [c] ++ cs := by simp
  have hsize : size before + c.utf8Size = size (before ++ [c]) := by simp
  have hnext : peek? (before ++ c :: cs) (size before + c.utf8Size) = some cs.head? := by
    rw [htext, hsize, peek?_append]
  rw [scanToken?, advance?_append]
  simp only [Option.bind_eq_bind, Option.bind_some, hnext]
  unfold tagPiece
  rw [if_neg hnotBlank]
  by_cases hclose : c = '>'
  · rw [if_pos hclose, if_pos hclose, hclose]
    rfl
  rw [if_neg hclose, if_neg hclose]
  by_cases hself : c = '/' ∧ cs.head? = some '>'
  · rw [if_pos hself, if_pos hself]
    obtain ⟨rfl, hhead⟩ := hself
    obtain ⟨cs, rfl⟩ := List.head?_eq_some_iff.1 hhead
    rw [htext, hsize, advance?_append, ← hsize]
    rfl
  rw [if_neg hself, if_neg hself]
  by_cases hequals : c = '='
  · rw [if_pos hequals, if_pos hequals, hequals]
    rfl
  rw [if_neg hequals, if_neg hequals]
  by_cases hquote : isQuote c = true
  · rw [if_pos hquote, if_pos hquote, scanValue?_append]
  rw [if_neg hquote, if_neg hquote]
  by_cases hname : isNameChar c = true
  · rw [if_pos hname, if_pos hname, htext, hsize, skipWhile?_append, ← hsize, Nat.add_assoc]
    rfl
  · rw [if_neg hname, if_neg hname]
    rfl

/-- A round inside a tag goes over blanks and takes the next piece, if the label goes on. -/
theorem scanTag?_append (rest : List Char) :
    scanTag? (before ++ rest) (size before) =
      match rest.dropWhile isBlank with
      | [] => some ⟨size before + size (rest.takeWhile isBlank), .tag, none, none⟩
      | c :: cs =>
        some (Round.ofPiece (size before + size (rest.takeWhile isBlank)) (tagPiece c cs)) := by
  have hsplit := List.takeWhile_append_dropWhile (p := isBlank) (l := rest)
  rw [scanTag?, skipWhile?_append]
  simp only [Option.bind_eq_bind, Option.bind_some]
  cases hdrop : rest.dropWhile isBlank with
  | nil =>
    rw [hdrop, List.append_nil] at hsplit
    rw [hsplit, ← size_append, if_pos (Nat.le_refl _)]
  | cons c cs =>
    have hblank : isBlank c = false := by
      have hne : rest.dropWhile isBlank ≠ [] := by
        rw [hdrop]
        exact List.cons_ne_nil _ _
      have hhead := List.head_dropWhile_not isBlank hne
      simpa only [hdrop, List.head_cons] using hhead
    have htext : before ++ rest = before ++ rest.takeWhile isBlank ++ c :: cs := by
      rw [List.append_assoc, ← hdrop, hsplit]
    have hpos := Char.utf8Size_pos c
    have hin : ¬ size (before ++ rest) ≤ size before + size (rest.takeWhile isBlank) := by
      rw [htext]
      simp only [size_append, size_cons]
      omega
    rw [if_neg hin, htext, ← size_append, scanToken?_append _ hblank]

/-! ## Labels -/

/-- Inside a tag the blanks in front leave no token. -/
theorem lexFrom_blanks (offset : Nat) (cs : List Char) : lexFrom .tag offset cs =
    lexFrom .tag (offset + size (cs.takeWhile isBlank)) (cs.dropWhile isBlank) := by
  cases cs with
  | nil => rfl
  | cons c cs =>
    by_cases hc : isBlank c = true
    · have hpiece : nextPiece .tag c cs =
          ⟨c :: cs.takeWhile isBlank, none, none, .tag, cs.dropWhile isBlank⟩ := if_pos hc
      rw [List.takeWhile_cons, if_pos hc, List.dropWhile_cons, if_pos hc, lexFrom, hpiece]
      rfl
    · rw [List.takeWhile_cons, if_neg hc, List.dropWhile_cons, if_neg hc]
      rfl

/-- What a round notes stands in front of what is noted from there on. -/
theorem ofLexed_lexFrom_cons (mode : Mode) (offset : Nat) (c : Char) (cs : List Char) :
    Noted.ofLexed (lexFrom mode offset (c :: cs)) =
      let piece := nextPiece mode c cs
      let round := Round.ofPiece offset piece
      let tail := Noted.ofLexed (lexFrom piece.mode round.pos piece.rest)
      ⟨round.token.toList ++ tail.tokens, round.unclosed.toList ++ tail.unclosed⟩ := by
  rw [lexFrom, Noted.ofLexed, List.map_append]
  cases hkind : (nextPiece mode c cs).kind with
  | none => simp [Round.ofPiece, Noted.ofLexed, hkind]
  | some kind => simp [Round.ofPiece, Noted.ofLexed, hkind, spot]

/-- A round that takes a piece, if all goes well behind the piece. -/
theorem lexFrom?_of_scan? {text front : List Char} {mode : Mode} {pos : Nat} {c : Char}
    {cs : List Char} (htext : text = front ++ c :: cs) (hpos : pos ≤ size front)
    (hscan : scan? text pos mode = some (Round.ofPiece (size front) (nextPiece mode c cs)))
    (htail : ∀ behind, text = behind ++ (nextPiece mode c cs).rest →
      lexFrom? text (nextPiece mode c cs).mode (size behind) = some (Noted.ofLexed
        (lexFrom (nextPiece mode c cs).mode (size behind) (nextPiece mode c cs).rest))) :
    lexFrom? text mode pos = some (Noted.ofLexed (lexFrom mode (size front) (c :: cs))) := by
  have hone := Char.utf8Size_pos c
  have hin : pos < size text := by
    rw [htext, size_append, size_cons]
    omega
  have hstop : (Round.ofPiece (size front) (nextPiece mode c cs)).pos =
      size (front ++ (nextPiece mode c cs).taken) := (size_append _ _).symm
  have htaken : size (nextPiece mode c cs).taken ≠ 0 :=
    fun hzero => taken_ne_nil mode c cs (size_eq_zero_iff.1 hzero)
  have hforward : pos < (Round.ofPiece (size front) (nextPiece mode c cs)).pos := by
    rw [hstop, size_append]
    omega
  have hbehind : lexFrom? text (nextPiece mode c cs).mode
      (Round.ofPiece (size front) (nextPiece mode c cs)).pos = some (Noted.ofLexed
        (lexFrom (nextPiece mode c cs).mode (Round.ofPiece (size front) (nextPiece mode c cs)).pos
          (nextPiece mode c cs).rest)) := by
    rw [hstop]
    refine htail _ ?_
    rw [List.append_assoc, taken_append_rest, htext]
  rw [lexFrom?, dif_pos hin, hscan]
  simp only [Option.bind_eq_bind, Option.bind_some, dif_pos hforward]
  show (lexFrom? text (nextPiece mode c cs).mode _).bind _ = _
  rw [hbehind, ofLexed_lexFrom_cons]
  rfl

/-- The offset of the scanner is always the one at which the rest of the label stands. -/
theorem lexFrom?_append (mode : Mode) (rest : List Char) :
    lexFrom? (before ++ rest) mode (size before) =
      some (Noted.ofLexed (lexFrom mode (size before) rest)) := by
  induction hn : rest.length using Nat.strong_induction_on generalizing before mode rest with
  | _ n ih =>
    subst hn
    cases rest with
    | nil =>
      rw [lexFrom?, dif_neg (by simp), lexFrom, List.append_nil]
      rfl
    | cons c cs =>
      cases mode with
      | content =>
        refine lexFrom?_of_scan? rfl (Nat.le_refl _) (scanContent?_append before c cs) ?_
        intro behind hbehind
        rw [hbehind]
        exact ih _ (rest_length_lt .content c cs) _ _ _ rfl
      | tag =>
        have hscan := scanTag?_append before (c :: cs)
        have hsplit := List.takeWhile_append_dropWhile (p := isBlank) (l := c :: cs)
        have hlength := (List.dropWhile_suffix (l := c :: cs) isBlank).length_le
        rw [lexFrom_blanks]
        cases hdrop : (c :: cs).dropWhile isBlank with
        | nil =>
          rw [hdrop] at hscan hsplit
          rw [List.append_nil] at hsplit
          have hpos := Char.utf8Size_pos c
          have hend : size before + size ((c :: cs).takeWhile isBlank) =
              size (before ++ c :: cs) := by
            rw [hsplit, size_append]
          have hforward : size before < size (before ++ c :: cs) := by
            simp only [size_append, size_cons]
            omega
          have htail := ih 0 (Nat.succ_pos _) (before ++ c :: cs) .tag [] rfl
          rw [List.append_nil] at htail
          rw [hend] at hscan ⊢
          rw [lexFrom?, dif_pos hforward, scan?, hscan]
          simp only [Option.bind_eq_bind, Option.bind_some, dif_pos hforward, htail]
          rfl
        | cons d ds =>
          rw [hdrop] at hscan hsplit hlength
          rw [← size_append] at hscan ⊢
          refine lexFrom?_of_scan? ?_ ?_ hscan ?_
          · rw [List.append_assoc, hsplit]
          · rw [size_append]
            exact Nat.le_add_right _ _
          · intro behind hbehind
            rw [hbehind]
            exact ih _ (Nat.lt_of_lt_of_le (rest_length_lt .tag d ds) hlength) _ _ _ rfl

/-- **Tokens of markup labels by offsets.** No slice of the scanner fails and it steps over no
character at the end, and the tokens are the ones they should be. -/
theorem lex?_eq (text : List Char) : lex? text = some (Noted.ofLexed (lex text)) :=
  lexFrom?_append [] .content text

end DotAttributes.Markup.Indexed
