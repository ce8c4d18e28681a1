import DotAttributes.Proofs.Markup.Descent
import DotAttributes.Proofs.Record.Descent

/-!
# Labels are read to their end

The scanner of markup labels and the readers of markup labels and of record labels, as loops and as
functions that call each other. Nothing in them says that they end: the cursor does not move over
the end of a markup label, it goes back over blanks in front of a field of a record, and an empty
leaf takes nothing. Here is what every round and every call takes nevertheless, and that all of
them end on every label, whatever it leaves open (`descent_returns`).
-/

namespace DotAttributes

open Reader Text

/-- **Labels are read to their end.** A round of the scanner of markup labels takes a character at
least, from whichever character on it starts. So it comes to the end of the label within as many
rounds as there are bytes, and with one token more than that at most.

A call that reads a tag takes a token at least, unless there is none. So does a round of the content
of a level or of the attributes of a tag that is not the last one. In a record the reader of the
label of a group is called behind a brace only, which has been taken with the blanks in front of it;
a field without a brace is read as a leaf. There is another round of the fields only behind a bar
that has been taken. So the calls and rounds are nested no deeper than there are tokens, and with
fuel for that many and one more, reading comes to an end for every label, of both kinds, with what
the reader of such labels gives. -/
theorem descent_returns (cs : List Char) :
    (∀ mode front c rest, cs = front ++ c :: rest →
      ∃ round taken left, Markup.Indexed.scan? cs (size front) mode = some round ∧
        c :: rest = taken ++ left ∧ round.pos = size (front ++ taken) ∧
        size front < round.pos) ∧
    (∀ fuel, size cs < fuel →
      Markup.Descent.lex? fuel cs = some (.ofLexed (Markup.lex cs))) ∧
    (Markup.lex cs).tokens.length ≤ size cs + 1 ∧
    (∀ fuel tokens, tokens.length ≤ fuel →
      (Markup.Descent.upcoming (size cs) tokens).kind ≠ .eof →
        ∃ outcome rest,
          (Markup.Descent.tag? (size cs) fuel (Markup.Descent.content? (size cs) fuel)).outcome?
            tokens = some (outcome, rest) ∧ Takes 1 tokens rest) ∧
    (∀ fuel tokens level, tokens.length ≤ fuel →
      Advances (Markup.Descent.contentRound? (size cs) fuel
        (Markup.Descent.content? (size cs) fuel) level) tokens) ∧
    (∀ tokens opening, Advances (Markup.Descent.attributeRound (size cs) opening) tokens) ∧
    (∀ fuel, (Markup.lex cs).tokens.length < fuel →
      Markup.Descent.read? fuel cs = some (Markup.read cs)) ∧
    (∀ inner tokens, (Record.Descent.field? (size cs) inner).outcome? tokens =
        (Record.Descent.leaf (size cs)).outcome? tokens ∨
      ∃ blanks brace rest, tokens = blanks ++ brace :: rest ∧
        (∀ blank ∈ blanks, blank.isBlank = true) ∧ brace.kind = .mark .leftBrace ∧
        (Record.Descent.field? (size cs) inner).outcome? tokens =
          (inner >>= Record.Descent.closeGroup (size cs) brace).outcome? rest) ∧
    (∀ fuel tokens nested fields, tokens.length ≤ fuel →
      ∃ outcome rest,
        (Record.Descent.fieldsRound? (size cs) (Record.Descent.label? (size cs) fuel true) nested
          fields).outcome? tokens = some (outcome, rest) ∧
        ∀ label, outcome = .ok (.next label) →
          ∃ bar behind, tokens = bar :: behind ∧ bar.kind = .mark .bar ∧ Takes 0 behind rest) ∧
    ∀ fuel, (Record.tokens cs).length < fuel →
      Record.Descent.read? fuel cs = some (Record.read cs) := by
  refine ⟨?scan, ?lex, ?tokens, ?tag, ?content, ?attributes, ?markup, ?field, ?fields, ?record⟩
  case scan =>
    rintro mode front c rest rfl
    obtain ⟨round, taken, left, hround, hsplit, hpos, hstop⟩ :=
      Markup.Descent.exists_scan? front c rest mode
    exact ⟨round, taken, left, hround, hsplit, hstop.trans (size_append ..).symm, by omega⟩
  case lex => exact fun fuel hfuel => Markup.Descent.lex?_eq hfuel
  case tokens => exact Markup.Descent.length_tokens_lexFrom_le .content 0 cs
  case tag => exact fun fuel tokens hfuel hkind => Markup.Descent.tag?_takes hkind hfuel
  case content =>
    exact fun fuel tokens level hfuel => Markup.Descent.contentRound?_advances level hfuel
  case attributes =>
    exact fun tokens opening => Markup.Descent.attributeRound_advances opening tokens
  case markup => exact fun fuel hfuel => Markup.Descent.read?_eq hfuel
  case field => exact Record.Descent.field?_outcome?
  case fields =>
    exact fun fuel tokens nested fields hfuel =>
      Record.Descent.fieldsRound?_advances nested fields hfuel
  case record => exact fun fuel hfuel => Record.Descent.read?_eq hfuel

/-- A tag that is left open, and a bar behind which a label ends. -/
theorem descent_returns_open :
    (∃ round taken left, Markup.Indexed.scan? ['<', 'a', '|'] 0 .content = some round ∧
      ['<', 'a', '|'] = taken ++ left ∧ round.pos = size taken ∧ 0 < round.pos) ∧
    Markup.Descent.lex? 4 ['<', 'a', '|'] = some (.ofLexed (Markup.lex ['<', 'a', '|'])) ∧
    (∃ outcome rest, (Markup.Descent.tag? 3 1 (Markup.Descent.content? 3 1)).outcome?
        [⟨.tagOpen, ['<'], ⟨0, 1⟩⟩] = some (outcome, rest) ∧
      Takes 1 [⟨.tagOpen, ['<'], ⟨0, 1⟩⟩] rest) ∧
    Advances (Markup.Descent.contentRound? 3 1 (Markup.Descent.content? 3 1) [])
      [⟨.tagOpen, ['<'], ⟨0, 1⟩⟩] ∧
    Markup.Descent.read? 5 ['<', 'a', '|'] = some (Markup.read ['<', 'a', '|']) ∧
    (∃ label rest, (Record.Descent.fieldsRound? 3 (Record.Descent.label? 3 1 true) false
        []).outcome? [⟨.mark .bar, ['|'], ⟨2, 3⟩⟩] = some (.ok (.next label), rest) ∧
      ∃ bar behind, [(⟨.mark .bar, ['|'], ⟨2, 3⟩⟩ : Record.Token)] = bar :: behind ∧
        bar.kind = .mark .bar ∧ Takes 0 behind rest) ∧
    Record.Descent.read? 4 ['<', 'a', '|'] = some (Record.read ['<', 'a', '|']) := by
  obtain ⟨hscan, hlex, -, htag, hcontent, -, hmarkup, -, hfields, hrecord⟩ :=
    descent_returns ['<', 'a', '|']
  refine ⟨hscan .content [] '<' ['a', '|'] rfl, hlex 4 (by decide),
    htag 1 _ (by decide) (by decide), hcontent 1 _ [] (by decide), hmarkup 5 (by decide +kernel),
    ?_, hrecord 4 (by decide +kernel)⟩
  have hround : (Record.Descent.fieldsRound? 3 (Record.Descent.label? 3 1 true) false
      []).outcome? [⟨.mark .bar, ['|'], ⟨2, 3⟩⟩] =
        some (.ok (.next [.leaf ⟨none, [], ⟨3, 3⟩⟩]), []) := rfl
  obtain ⟨outcome, rest, houtcome, hnext⟩ :=
    hfields 1 [⟨.mark .bar, ['|'], ⟨2, 3⟩⟩] false [] (by decide)
  cases hround.symm.trans houtcome
  exact ⟨_, _, hround, hnext _ rfl⟩

end DotAttributes
