import DotAttributes.Proofs.Record.Spans

/-!
# Writing record labels

`printLabel` writes a record as a label. A record in canonical form (`IsCanonical`) comes back
when the label is read, up to the places of its parts (`read_printLabel`).

Behind the statement is one induction on the record: from the beginning of a field, what is
written for it takes the reader to a place at which it has read that field (`Tree.ReadsBack`). It
needs a mark or the end of the label behind the field, where its text stops (`EndsText`).
-/

namespace DotAttributes.Record

open Text

/-! ## Records without places -/

/-- A field of a record, wherever it stands: the name of its port and its text, or its fields. -/
inductive Tree
  | leaf (port : Option (List Char)) (text : List Char)
  | group (fields : List Tree)

mutual

/-- Forgets the places in a field. -/
def Field.tree : Field → Tree
  | .leaf leaf => .leaf (leaf.port.map Located.item) leaf.text
  | .group fields _ => .group (treesOf fields)

/-- Forgets the places in a label. -/
def treesOf : List Field → List Tree
  | [] => []
  | field :: fields => field.tree :: treesOf fields

end

/-! ## Writing -/

/-- Writes the port of a leaf. -/
def printPort : Option (List Char) → List Char
  | none => []
  | some name => '<' :: name ++ ['>']

mutual

/-- Writes a field. -/
def Tree.print : Tree → List Char
  | .leaf port text => printPort port ++ text
  | .group fields => '{' :: printLabel fields ++ ['}']

/-- Writes a label: its fields, with bars between them. -/
def printLabel : List Tree → List Char
  | [] => []
  | [field] => field.print
  | field :: rest => field.print ++ '|' :: printLabel rest

end

/-! ## Canonical records -/

/-- Characters that stand for themselves, each by itself or behind a backslash. -/
inductive IsWritten : List Char → Prop
  | nil : IsWritten []
  | plain {c : Char} {cs : List Char} (c_plain : Mark.ofChar? c = none) (c_ne : c ≠ '\\')
      (cs_written : IsWritten cs) : IsWritten (c :: cs)
  | escaped {c : Char} {cs : List Char} (cs_written : IsWritten cs) : IsWritten ('\\' :: c :: cs)

/-- A text that stands for itself and has no blanks at its ends. It may be empty. -/
structure IsCanonicalText (cs : List Char) : Prop where
  written : IsWritten cs
  head : ∀ c ∈ cs.head?, isBlank c = false
  last : ∀ c ∈ cs.getLast?, isBlank c = false

/-- A field that comes back when it is written and read. -/
inductive Tree.IsCanonical : Tree → Prop
  | leaf {port : Option (List Char)} {text : List Char}
      (port_canonical : ∀ name ∈ port, IsCanonicalText name)
      (text_canonical : IsCanonicalText text) : IsCanonical (.leaf port text)
  | group {fields : List Tree} (fields_ne_nil : fields ≠ [])
      (fields_canonical : ∀ field ∈ fields, IsCanonical field) : IsCanonical (.group fields)

/-- A label that comes back when it is written and read. -/
structure IsCanonical (label : List Tree) : Prop where
  ne_nil : label ≠ []
  fields : ∀ field ∈ label, field.IsCanonical

/-! ## Tokens of what is written -/

/-- The tokens of a text that starts at `offset`. -/
def tokensAt (offset : Nat) (cs : List Char) : List Token := joinAtoms offset (atoms cs)

/-- A mark or the end, where a token of text stops. -/
def EndsText (rest : List Char) : Prop := ∀ c ∈ rest.head?, (Mark.ofChar? c).isSome = true

/-- The token that a mark is. -/
def Mark.tokenAt (mark : Mark) (offset : Nat) : Token :=
  ⟨.mark mark, [mark.char], Span.ofSize offset (size [mark.char])⟩

section

variable {offset : Nat} {cs rest : List Char}

theorem endsText_mark (mark : Mark) (rest : List Char) : EndsText (mark.char :: rest) := by
  rintro _ ⟨⟩
  cases mark <;> rfl

theorem tokensAt_mark (mark : Mark) :
    tokensAt offset (mark.char :: rest) =
      mark.tokenAt offset :: tokensAt (offset + size [mark.char]) rest := by
  have hatoms : atoms (mark.char :: rest) = .mark mark :: atoms rest := by
    cases mark <;> rfl
  rw [tokensAt, hatoms, joinAtoms, ← tokensAt]
  show joinAtom offset (.mark mark) (tokensAt (offset + size [mark.char]) rest) = _
  cases tokensAt (offset + size [mark.char]) rest <;> rfl

theorem atoms_plain {c : Char} (hplain : Mark.ofChar? c = none) (hne : c ≠ '\\') :
    atoms (c :: cs) = .plain c :: atoms cs := by
  rw [atoms]
  · simp [Atom.ofChar, hplain]
  · exact fun h _ => hne h
  · exact fun _ _ h _ => hne h

/-- Behind text, a mark or the end starts no token that could be joined to it. -/
theorem EndsText.isText_head? (h : EndsText rest) :
    ∀ token ∈ (tokensAt offset rest).head?, token.kind.isText = false := by
  cases rest with
  | nil => exact nofun
  | cons c rest =>
    obtain ⟨mark, hmark⟩ := Option.isSome_iff_exists.1 (h c rfl)
    rw [← Mark.char_of_ofChar? hmark, tokensAt_mark]
    rintro _ ⟨⟩
    rfl

/-- A part of text is joined to the text behind it, if there is any. -/
theorem joinAtom_text (atom : Atom) (hatom : atom.kind = .text) (hrest : EndsText rest)
    (hcs : cs ≠ [] → ∀ offset, tokensAt offset (cs ++ rest) =
      ⟨.text, cs, Span.ofSize offset (size cs)⟩ :: tokensAt (offset + size cs) rest) :
    joinAtom offset atom (tokensAt (offset + size atom.text) (cs ++ rest)) =
      ⟨.text, atom.text ++ cs, Span.ofSize offset (size (atom.text ++ cs))⟩ ::
        tokensAt (offset + size (atom.text ++ cs)) rest := by
  by_cases hnil : cs = []
  · subst hnil
    have hhead : ∀ token ∈ (tokensAt (offset + size atom.text) rest).head?,
        token.kind.isText = false := hrest.isText_head?
    rw [List.nil_append, List.append_nil]
    cases htokens : tokensAt (offset + size atom.text) rest with
    | nil => simp [joinAtom, hatom]
    | cons next tokens =>
      have hnext : next.kind.isText = false := hhead next (by rw [htokens]; rfl)
      simp [joinAtom, hatom, hnext]
  · rw [hcs hnil, size_append, ← Nat.add_assoc]
    simp [joinAtom, hatom, TokenKind.isText, Span.ofSize, Nat.add_assoc]

/-- Text up to a mark or the end is one token. -/
theorem IsWritten.tokensAt_append (hcs : IsWritten cs) (hne : cs ≠ []) (hrest : EndsText rest)
    (offset : Nat) :
    tokensAt offset (cs ++ rest) =
      ⟨.text, cs, Span.ofSize offset (size cs)⟩ :: tokensAt (offset + size cs) rest := by
  induction hcs generalizing offset with
  | nil => exact absurd rfl hne
  | @plain c cs hplain hc _ ih =>
    rw [List.cons_append, tokensAt, atoms_plain hplain hc]
    exact joinAtom_text (.plain c) rfl hrest ih
  | @escaped c cs _ ih =>
    exact joinAtom_text (.escaped c) rfl hrest ih

theorem IsCanonicalText.trim_eq (h : IsCanonicalText cs) : trim cs = cs :=
  trim_of_ends h.head h.last

theorem IsCanonicalText.not_isBlank (h : IsCanonicalText cs) (hne : cs ≠ []) :
    isBlankText cs = false := by
  obtain ⟨c, cs, rfl⟩ := List.exists_cons_of_ne_nil hne
  simp [isBlankText, h.head c rfl]

/-! ## Reading what is written -/

/-- A mark is read as one token. -/
theorem run_mark {state next : State} (mark : Mark)
    (h : stepMark state (mark.tokenAt offset) mark = .ok next) :
    run state (tokensAt offset (mark.char :: rest)) =
      run next (tokensAt (offset + size [mark.char]) rest) := by
  have hstep : step state (mark.tokenAt offset) = .ok next := h
  rw [tokensAt_mark, run, hstep]

/-- Text up to a mark or the end is read as one token. -/
theorem run_text {state next : State} (hcs : IsWritten cs) (hne : cs ≠ []) (hrest : EndsText rest)
    (h : stepText state ⟨.text, cs, Span.ofSize offset (size cs)⟩ = .ok next) :
    run state (tokensAt offset (cs ++ rest)) = run next (tokensAt (offset + size cs) rest) := by
  have hstep : step state ⟨.text, cs, Span.ofSize offset (size cs)⟩ = .ok next := h
  rw [hcs.tokensAt_append hne hrest, run, hstep]

variable (stack : List OpenGroup) (fields : List Field)

/-- A port is called what stands between its brackets. -/
theorem portOf_item (bracket close : Span) (name : Option Token) :
    (portOf bracket name close).port.item = (name.map fun token => trim token.text).getD [] := by
  cases name with
  | none => rfl
  | some token =>
    simp only [portOf, Option.map_some, Option.getD_some]
    split
    · next h => exact (List.isEmpty_iff.1 h).symm
    · rfl

/-- What is written for a port is read as the port. -/
theorem exists_run_port {name : List Char} (hname : IsCanonicalText name) (offset : Nat)
    (rest : List Char) :
    ∃ mark stop, mark.port.item = name ∧
      run ⟨stack, fields, .start⟩ (tokensAt offset (printPort (some name) ++ rest)) =
        run ⟨stack, fields, .afterPort mark⟩ (tokensAt stop rest) := by
  let bracket := (Mark.leftAngle.tokenAt offset).span
  have hopen (cs : List Char) : run ⟨stack, fields, .start⟩ (tokensAt offset ('<' :: cs)) =
      run ⟨stack, fields, .port bracket none⟩ (tokensAt (offset + size ['<']) cs) :=
    run_mark .leftAngle rfl
  have hclose (inner : Option Token) (stop : Nat) :
      run ⟨stack, fields, .port bracket inner⟩ (tokensAt stop ('>' :: rest)) =
        run ⟨stack, fields, .afterPort (portOf bracket inner (Mark.rightAngle.tokenAt stop).span)⟩
          (tokensAt (stop + size ['>']) rest) := by
    cases inner <;> exact run_mark .rightAngle rfl
  have hprint : printPort (some name) ++ rest = '<' :: (name ++ '>' :: rest) := by
    simp [printPort]
  rw [hprint, hopen]
  by_cases hne : name = []
  · subst hne
    exact ⟨_, _, portOf_item _ _ _, hclose none _⟩
  · have hinner : run ⟨stack, fields, .port bracket none⟩
        (tokensAt (offset + size ['<']) (name ++ '>' :: rest)) = _ :=
      run_text hname.written hne (endsText_mark .rightAngle _) rfl
    rw [hinner, hclose]
    refine ⟨_, _, ?_, rfl⟩
    rw [portOf_item]
    exact hname.trim_eq

/-- A field has been read at a place. -/
def Place.Holds (place : Place) (field : Tree) : Prop :=
  ∀ next, ∃ read, place.field? next = some read ∧ read.tree = field

/-- What is written for a text is read behind a port, or at the beginning of a field. -/
theorem exists_run_text (port : Option PortMark) {text : List Char} (htext : IsCanonicalText text)
    (offset : Nat) (hrest : EndsText rest) :
    ∃ place stop, place.Holds (.leaf (port.map fun mark => mark.port.item) text) ∧
      run ⟨stack, fields, port.elim .start .afterPort⟩ (tokensAt offset (text ++ rest)) =
        run ⟨stack, fields, place⟩ (tokensAt stop rest) := by
  by_cases hne : text = []
  · subst hne
    refine ⟨port.elim .start .afterPort, offset, fun next => ?_, rfl⟩
    cases port with
    | none => exact ⟨_, rfl, rfl⟩
    | some mark => exact ⟨_, rfl, rfl⟩
  · refine ⟨.afterText port (trimAt offset text), _, fun next => ⟨_, rfl, ?_⟩,
      run_text htext.written hne hrest ?_⟩
    · rw [Field.tree, Option.map_map, trimAt, htext.trim_eq]
      rfl
    · cases port with
      | none => simp [stepText, Token.isBlank, htext.not_isBlank hne]
      | some mark => rfl

/-- From the beginning of a field, what is written for it takes the reader to a place at which it
has read the field. -/
def Tree.ReadsBack (field : Tree) : Prop :=
  ∀ (stack : List OpenGroup) (fields : List Field) (offset : Nat) (rest : List Char),
    EndsText rest → ∃ place stop, place.Holds field ∧
      run ⟨stack, fields, .start⟩ (tokensAt offset (field.print ++ rest)) =
        run ⟨stack, fields, place⟩ (tokensAt stop rest)

theorem readsBack_leaf {port : Option (List Char)} {text : List Char}
    (hport : ∀ name ∈ port, IsCanonicalText name) (htext : IsCanonicalText text) :
    (Tree.leaf port text).ReadsBack := by
  intro stack fields offset rest hrest
  rw [Tree.print, List.append_assoc]
  cases port with
  | none => exact exists_run_text stack fields none htext offset hrest
  | some name =>
    obtain ⟨mark, middle, rfl, hmark⟩ :=
      exists_run_port stack fields (hport name rfl) offset (text ++ rest)
    rw [hmark]
    exact exists_run_text stack fields (some mark) htext middle hrest

/-- What is written for a label is read as its fields, the last one of which is not finished. -/
theorem exists_run_label {label : List Tree} (hne : label ≠ [])
    (h : ∀ field ∈ label, field.ReadsBack) (stack : List OpenGroup) (fields : List Field)
    (offset : Nat) (rest : List Char) (hrest : EndsText rest) :
    ∃ before place stop, (∀ next, ∃ last, place.field? next = some last ∧
        treesOf (before ++ [last]) = label) ∧
      run ⟨stack, fields, .start⟩ (tokensAt offset (printLabel label ++ rest)) =
        run ⟨stack, fields ++ before, place⟩ (tokensAt stop rest) := by
  induction label generalizing fields offset with
  | nil => exact absurd rfl hne
  | cons field label ih =>
    obtain ⟨hfield, hlabel⟩ := List.forall_mem_cons.1 h
    cases label with
    | nil =>
      obtain ⟨place, stop, hholds, hrun⟩ := hfield stack fields offset rest hrest
      refine ⟨[], place, stop, fun next => ?_, by rwa [List.append_nil]⟩
      obtain ⟨last, hlast, rfl⟩ := hholds next
      exact ⟨last, hlast, rfl⟩
    | cons next label =>
      obtain ⟨place, stop, hholds, hrun⟩ := hfield stack fields offset
        ('|' :: (printLabel (next :: label) ++ rest)) (endsText_mark .bar _)
      obtain ⟨read, hread, htree⟩ := hholds stop
      obtain ⟨before, place', stop', hlast, hrest'⟩ := ih (List.cons_ne_nil _ _) hlabel
        (fields ++ [read]) (stop + size ['|'])
      have hbar : run ⟨stack, fields, place⟩
          (tokensAt stop ('|' :: (printLabel (next :: label) ++ rest))) =
            run ⟨stack, fields ++ [read], .start⟩
              (tokensAt (stop + size ['|']) (printLabel (next :: label) ++ rest)) := by
        refine run_mark .bar ?_
        simp [stepMark, Mark.tokenAt, hread]
      have hprint : printLabel (field :: next :: label) ++ rest =
          field.print ++ '|' :: (printLabel (next :: label) ++ rest) := by
        simp [printLabel]
      refine ⟨read :: before, place', stop', fun n => ?_, ?_⟩
      · obtain ⟨last, hfield?, htrees⟩ := hlast n
        exact ⟨last, hfield?, by rw [← htrees, ← htree]; rfl⟩
      · rw [hprint, hrun, hbar, hrest', List.append_assoc]
        rfl

theorem readsBack_group {label : List Tree} (hne : label ≠ [])
    (h : ∀ field ∈ label, field.ReadsBack) : (Tree.group label).ReadsBack := by
  intro stack fields offset rest hrest
  let outer : OpenGroup := ⟨fields, offset⟩
  obtain ⟨before, place, stop, hlast, hrun⟩ := exists_run_label hne h (outer :: stack) []
    (offset + size ['{']) ('}' :: rest) (endsText_mark .rightBrace _)
  obtain ⟨last, hfield?, htrees⟩ := hlast stop
  let group : Field := .group (before ++ [last]) ⟨offset, (Mark.rightBrace.tokenAt stop).span.stop⟩
  have hopen (cs : List Char) : run ⟨stack, fields, .start⟩ (tokensAt offset ('{' :: cs)) =
      run ⟨outer :: stack, [], .start⟩ (tokensAt (offset + size ['{']) cs) :=
    run_mark .leftBrace rfl
  have hclose : run ⟨outer :: stack, before, place⟩ (tokensAt stop ('}' :: rest)) =
      run ⟨stack, fields, .afterGroup group false⟩ (tokensAt (stop + size ['}']) rest) := by
    refine run_mark .rightBrace ?_
    simp [stepMark, Mark.tokenAt, hfield?, closeGroup, outer, group]
  have hprint : (Tree.group label).print ++ rest = '{' :: (printLabel label ++ '}' :: rest) := by
    simp [Tree.print]
  refine ⟨.afterGroup group false, stop + size ['}'], fun next => ⟨group, rfl, ?_⟩, ?_⟩
  · rw [Field.tree, htrees]
  · rw [hprint, hopen, hrun, List.nil_append, hclose]

theorem Tree.IsCanonical.readsBack {field : Tree} (h : field.IsCanonical) : field.ReadsBack := by
  induction h with
  | leaf hport htext => exact readsBack_leaf hport htext
  | group hne _ ih => exact readsBack_group hne ih

/-- **Round trip.** What is written for a canonical record is read as the record, up to the places
of its parts. -/
theorem read_printLabel {label : List Tree} (h : IsCanonical label) :
    ∃ fields, read (printLabel label) = .ok fields ∧ treesOf fields = label := by
  obtain ⟨before, place, stop, hlast, hrun⟩ := exists_run_label h.ne_nil
    (fun field hfield => (h.fields field hfield).readsBack) [] [] 0 [] nofun
  obtain ⟨last, hfield?, htrees⟩ := hlast (size (printLabel label))
  refine ⟨before ++ [last], ?_, htrees⟩
  rw [List.append_nil] at hrun
  have hend : run .start (tokens (printLabel label)) = .ok ⟨[], before, place⟩ := hrun
  rw [read, hend]
  simp [State.finish, hfield?]

end

/-- A record with an empty port, an escaped bar beside real ones, and fields without anything. -/
def sparseRecord : List Tree :=
  [.group [.leaf (some []) ['\\', '|', ' ', 'a'], .leaf none [], .leaf none []],
    .leaf (some ['p']) []]

/-- Nothing of it is lost. -/
theorem read_printLabel_sparseRecord :
    String.ofList (printLabel sparseRecord) = "\x7b<>\\| a||\x7d|<p>" ∧ IsCanonical sparseRecord ∧
      ∃ fields, read (printLabel sparseRecord) = .ok fields ∧ treesOf fields = sparseRecord := by
  have hempty : IsCanonicalText [] := ⟨.nil, nofun, nofun⟩
  have hleaf : (Tree.leaf none []).IsCanonical := .leaf nofun hempty
  have hport : IsCanonicalText ['p'] :=
    ⟨.plain rfl (by decide) .nil, by rintro _ ⟨⟩; rfl, by rintro _ ⟨⟩; rfl⟩
  have htext : IsCanonicalText ['\\', '|', ' ', 'a'] :=
    ⟨.escaped (.plain rfl (by decide) (.plain rfl (by decide) .nil)), by rintro _ ⟨⟩; rfl,
      by rintro _ ⟨⟩; rfl⟩
  have hcanonical : IsCanonical sparseRecord := by
    refine ⟨List.cons_ne_nil _ _, ?_⟩
    simp only [sparseRecord, List.forall_mem_cons]
    refine ⟨.group (List.cons_ne_nil _ _) ?_, .leaf ?_ hempty, List.forall_mem_nil _⟩
    · simp only [List.forall_mem_cons]
      refine ⟨.leaf ?_ htext, hleaf, hleaf, List.forall_mem_nil _⟩
      rintro _ ⟨⟩
      exact hempty
    · rintro _ ⟨⟩
      exact hport
  exact ⟨by decide +kernel, hcanonical, read_printLabel hcanonical⟩

end DotAttributes.Record
