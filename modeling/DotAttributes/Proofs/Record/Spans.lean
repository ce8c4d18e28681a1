import DotAttributes.Proofs.Record.Steps
import DotAttributes.Proofs.Slice
import DotAttributes.Record.Check

/-!
# Where the parts of a record label stand

The tokens of a record label tile it (`tiles_tokens`). The reader moves from one end of them
to the other, and what it has read so far stands in front of the position it has reached
(`isPlaced_of_step`): the names of ports at their places, a port without a name at its
brackets, a group at its braces. Every problem of a label is reported at such a place
(`isPlaced_of_mem_check`), and a label that cannot be read at a token or at its end
(`hasSpan_of_read_error`).
-/

namespace DotAttributes.Record

open Text

/-! ## Tokens -/

/-- Tokens cover a text that starts at `offset`, each one starting where the last one stops. -/
inductive Tiles : Nat → List Char → List Token → Prop
  | nil {offset : Nat} : Tiles offset [] []
  | cons {offset : Nat} (token : Token) {after : List Char} {rest : List Token}
      (span_eq : token.span = Span.ofSize offset (size token.text))
      (rest_tiles : Tiles (offset + size token.text) after rest) :
      Tiles offset (token.text ++ after) (token :: rest)

theorem Mark.char_of_ofChar? {c : Char} {mark : Mark} (h : Mark.ofChar? c = some mark) :
    mark.char = c := by
  unfold Mark.ofChar? at h
  repeat' split at h
  all_goals cases h
  all_goals exact Eq.symm ‹_›

theorem text_ofChar (c : Char) : (Atom.ofChar c).text = [c] := by
  unfold Atom.ofChar
  split
  · next mark h => exact congrArg (fun d => [d]) (Mark.char_of_ofChar? h)
  · rfl

/-- The parts of a label make it up. -/
theorem flatMap_text_atoms (cs : List Char) : (atoms cs).flatMap Atom.text = cs := by
  fun_induction atoms cs with
  | case1 => rfl
  | case2 => rfl
  | case3 c cs ih => rw [List.flatMap_cons, ih]; rfl
  | case4 c cs _ _ ih =>
    rw [List.flatMap_cons, ih, text_ofChar]
    rfl

theorem tiles_joinAtom {offset : Nat} {atom : Atom} {after : List Char} {tokens : List Token}
    (h : Tiles (offset + size atom.text) after tokens) :
    Tiles offset (atom.text ++ after) (joinAtom offset atom tokens) := by
  unfold joinAtom
  cases h with
  | nil => exact .cons ⟨atom.kind, atom.text, _⟩ rfl .nil
  | @cons _ next after rest hspan hrest =>
    simp only
    split
    · rw [← List.append_assoc]
      refine .cons ⟨.text, atom.text ++ next.text, _⟩ ?_ ?_
      · rw [hspan]
        simp only [Span.ofSize, size_append, Nat.add_assoc]
      · rwa [size_append, ← Nat.add_assoc]
    · exact .cons ⟨atom.kind, atom.text, _⟩ rfl (.cons next hspan hrest)

theorem tiles_joinAtoms (offset : Nat) (atoms : List Atom) :
    Tiles offset (atoms.flatMap Atom.text) (joinAtoms offset atoms) := by
  induction atoms generalizing offset with
  | nil => exact .nil
  | cons atom atoms ih =>
    rw [List.flatMap_cons]
    exact tiles_joinAtom (ih _)

/-- The tokens of a label tile it. -/
theorem tiles_tokens (cs : List Char) : Tiles 0 cs (tokens cs) := by
  have h := tiles_joinAtoms 0 (atoms cs)
  rwa [flatMap_text_atoms] at h

/-- The characters of a mark are that mark. -/
def Token.IsFaithful (token : Token) : Prop :=
  ∀ mark, token.kind = .mark mark → token.text = [mark.char]

theorem isFaithful_of_mem_joinAtoms (offset : Nat) {atoms : List Atom} :
    ∀ token ∈ joinAtoms offset atoms, token.IsFaithful := by
  induction atoms generalizing offset with
  | nil => exact nofun
  | cons atom atoms ih =>
    have ih := ih (offset + size atom.text)
    have halone : Token.IsFaithful ⟨atom.kind, atom.text, Span.ofSize offset (size atom.text)⟩ := by
      intro mark hmark
      cases atom <;> cases hmark
      rfl
    rw [joinAtoms]
    unfold joinAtom
    split
    · exact List.forall_mem_singleton.2 halone
    · next next rest htokens =>
      rw [htokens] at ih
      obtain ⟨-, hrest⟩ := List.forall_mem_cons.1 ih
      simp only
      split
      · exact List.forall_mem_cons.2 ⟨nofun, hrest⟩
      · exact List.forall_mem_cons.2 ⟨halone, ih⟩

theorem Atom.text_ne_nil (atom : Atom) : atom.text ≠ [] := by
  cases atom <;> exact List.cons_ne_nil _ _

/-- No token is empty. -/
theorem text_ne_nil_of_mem_joinAtoms (offset : Nat) {atoms : List Atom} :
    ∀ token ∈ joinAtoms offset atoms, token.text ≠ [] := by
  induction atoms generalizing offset with
  | nil => exact nofun
  | cons atom atoms ih =>
    have ih := ih (offset + size atom.text)
    rw [joinAtoms]
    unfold joinAtom
    split
    · exact List.forall_mem_singleton.2 atom.text_ne_nil
    · next next rest htokens =>
      rw [htokens] at ih
      simp only
      split
      · refine List.forall_mem_cons.2 ⟨fun hnil => ?_, (List.forall_mem_cons.1 ih).2⟩
        exact atom.text_ne_nil (List.append_eq_nil_iff.1 hnil).1
      · exact List.forall_mem_cons.2 ⟨atom.text_ne_nil, ih⟩

/-! ## Trees -/

/-- A port stands at its name, or at its brackets, which have only blanks between them, when it
has no name. -/
def PortPlaced (cs : List Char) (port : Located (List Char)) : Prop :=
  (port.item ≠ [] ∧ StandsAt 0 cs port.span port.item) ∨
    (port.item = [] ∧ ∃ blanks, isBlankText blanks = true ∧
      StandsAt 0 cs port.span ('<' :: blanks ++ ['>']))

/-- A leaf is placed when it and its port are. -/
structure Leaf.IsPlaced (cs : List Char) (leaf : Leaf) : Prop where
  hasSpan : HasSpan 0 cs leaf.span
  port : ∀ port ∈ leaf.port, PortPlaced cs port

/-- A field is placed when all its leaves are, and a group stands at its braces. -/
inductive Field.IsPlaced (cs : List Char) : Field → Prop
  | leaf {leaf : Leaf} (leaf_placed : leaf.IsPlaced cs) : IsPlaced cs (.leaf leaf)
  | group {fields : List Field} {span : Span} (fields_placed : ∀ field ∈ fields, IsPlaced cs field)
      (braces : ∃ body, StandsAt 0 cs span ('{' :: body ++ ['}'])) :
      IsPlaced cs (.group fields span)

/-- A port that has been read, with its brackets. -/
structure PortMark.IsPlaced (cs : List Char) (mark : PortMark) : Prop where
  port : PortPlaced cs mark.port
  brackets : HasSpan 0 cs mark.brackets

/-- The parts of the field that is being read stand in front of `position`, those of a port
right in front of it. -/
def Place.IsPlaced (cs : List Char) (position : Nat) : Place → Prop
  | .start | .blank => True
  | .port bracket none => StandsAt 0 cs bracket ['<'] ∧ bracket.stop = position
  | .port bracket (some name) =>
    StandsAt 0 cs bracket ['<'] ∧ bracket.stop = name.span.start ∧
      StandsAt 0 cs name.span name.text ∧ name.span.stop = position
  | .afterPort mark => mark.IsPlaced cs ∧ mark.brackets.stop ≤ position
  | .afterText mark text =>
    StandsAt 0 cs text.span text.item ∧
      ∀ m ∈ mark, m.IsPlaced cs ∧ m.brackets.start ≤ text.span.stop
  | .afterGroup group _ => group.IsPlaced cs

/-- An open group starts at a brace in front of `position`, and the fields before it are placed. -/
structure OpenGroup.IsPlaced (cs : List Char) (position : Nat) (group : OpenGroup) : Prop where
  before : ∀ field ∈ group.before, field.IsPlaced cs
  brace : ∃ brace, StandsAt 0 cs brace ['{'] ∧ brace.start = group.start ∧ brace.stop ≤ position

/-- All parts of what has been read stand in front of `position`. -/
structure State.IsPlaced (cs : List Char) (position : Nat) (state : State) : Prop where
  stack : ∀ group ∈ state.stack, group.IsPlaced cs position
  fields : ∀ field ∈ state.fields, field.IsPlaced cs
  place : state.place.IsPlaced cs position

variable {cs : List Char} {position : Nat}

theorem State.start_isPlaced : State.start.IsPlaced cs position := ⟨nofun, nofun, trivial⟩

theorem OpenGroup.IsPlaced.mono {group : OpenGroup} {position' : Nat} (hle : position ≤ position')
    (h : group.IsPlaced cs position) : group.IsPlaced cs position' := by
  obtain ⟨hbefore, brace, hbrace, hstart, hstop⟩ := h
  exact ⟨hbefore, brace, hbrace, hstart, Nat.le_trans hstop hle⟩

/-- Between two characters in order stands a text that begins and ends with them. -/
theorem standsAt_through {s s' : Span} {c d : Char} (h : StandsAt 0 cs s [c])
    (h' : StandsAt 0 cs s' [d]) (hle : s.stop ≤ s'.start) :
    ∃ body, StandsAt 0 cs (s.through s') (c :: body ++ [d]) := by
  obtain ⟨before, after, hcs, rfl⟩ := h
  obtain ⟨before', after', hcs', rfl⟩ := h'
  obtain ⟨body, hbody, -⟩ : ∃ body, before' = (before ++ [c]) ++ body ∧
      after = body ++ ([d] ++ after') := by
    refine exists_append_of_size_le ?_ ?_
    · rw [← hcs, hcs', List.append_assoc]
    · simp only [Span.ofSize_stop, Span.ofSize_start, size_cons, size_nil] at hle
      simp only [size_append, size_cons, size_nil]
      omega
  refine ⟨body, before, after', ?_, ?_⟩
  · rw [hcs', hbody]
    simp
  · rw [hbody]
    simp only [Span.through, Span.ofSize, size_append, size_cons, size_nil, Span.mk.injEq,
      List.cons_append, true_and]
    omega

/-! ## The field that has been read -/

/-- A leaf without a text stands where its port does. -/
theorem leafSpan_of_nil {text : Located (List Char)} (h : text.item = []) (next : Nat)
    (mark : Option PortMark) :
    leafSpan next mark text = (mark.map PortMark.brackets).getD (Span.empty next) := by
  cases mark <;> simp only [leafSpan, h] <;> rfl

/-- A leaf with a text stops where the text does. -/
theorem leafSpan_of_ne_nil {text : Located (List Char)} (h : text.item ≠ []) (next : Nat)
    (mark : Option PortMark) :
    leafSpan next mark text = (mark.map (·.brackets.through text.span)).getD text.span := by
  obtain ⟨c, cs, hcons⟩ := List.exists_cons_of_ne_nil h
  cases mark <;> simp only [leafSpan, hcons] <;> rfl

/-- The field that has been read when the next token starts at a boundary is placed. -/
theorem isPlaced_of_field? {place : Place} {next : Nat} {field : Field}
    (hplace : place.IsPlaced cs position) (hnext : HasBoundary 0 cs next)
    (h : place.field? next = some field) : field.IsPlaced cs := by
  have hempty : HasSpan 0 cs (Span.empty next) := (standsAt_empty hnext).hasSpan
  cases place with
  | start =>
    cases h
    exact .leaf ⟨hempty, nofun⟩
  | blank =>
    cases h
    exact .leaf ⟨hempty, nofun⟩
  | port bracket name => cases h
  | afterPort mark =>
    cases h
    refine .leaf ⟨hplace.1.brackets, fun port hport => ?_⟩
    cases hport
    exact hplace.1.port
  | afterText mark text =>
    cases h
    obtain ⟨htext, hmark⟩ := hplace
    cases mark with
    | none =>
      refine .leaf ⟨?_, nofun⟩
      by_cases hitem : text.item = []
      · rw [leafSpan_of_nil hitem]
        exact hempty
      · rw [leafSpan_of_ne_nil hitem]
        exact ⟨_, htext⟩
    | some mark =>
      obtain ⟨hplaced, hle⟩ := hmark mark rfl
      refine .leaf ⟨?_, fun port hport => ?_⟩
      · by_cases hitem : text.item = []
        · rw [leafSpan_of_nil hitem]
          exact hplaced.brackets
        · rw [leafSpan_of_ne_nil hitem]
          exact hplaced.brackets.through htext.hasSpan hle
      · cases hport
        exact hplaced.port
  | afterGroup group blank =>
    cases h
    exact hplace

/-! ## One token -/

@[simp] theorem portOf_brackets (bracket close : Span) (name : Option Token) :
    (portOf bracket name close).brackets = bracket.through close := by
  unfold portOf
  simp only
  split <;> rfl

/-- The port between two brackets is placed. -/
theorem isPlaced_portOf {bracket close : Span} {name : Option Token}
    (hport : (Place.port bracket name).IsPlaced cs close.start)
    (hclose : StandsAt 0 cs close ['>']) : (portOf bracket name close).IsPlaced cs := by
  unfold portOf
  cases name with
  | none =>
    obtain ⟨hbracket, hstop⟩ := hport
    have hbrackets := hbracket.append hclose hstop
    exact ⟨Or.inr ⟨rfl, [], rfl, hbrackets⟩, hbrackets.hasSpan⟩
  | some token =>
    obtain ⟨hbracket, hstart, hname, hstop⟩ := hport
    have hbrackets : StandsAt 0 cs (bracket.through close) ('<' :: token.text ++ ['>']) :=
      (hbracket.append hname hstart).append hclose hstop
    simp only [Option.map_some, Option.getD_some]
    split
    · next hempty =>
      have hblank : isBlankText token.text = true :=
        isBlankText_of_trim_eq_nil (List.isEmpty_iff.1 hempty)
      exact ⟨Or.inr ⟨rfl, token.text, hblank, hbrackets⟩, hbrackets.hasSpan⟩
    · next hne =>
      have htrim := hname.trans (standsAt_trimAt token.span.start token.text)
      refine ⟨Or.inl ⟨fun hnil => hne ?_, htrim⟩, hbrackets.hasSpan⟩
      rw [hnil]
      rfl

variable {token : Token} {state next : State}

/-- A step from one end of a token to the other keeps everything placed. -/
theorem isPlaced_of_step (hstate : state.IsPlaced cs token.span.start)
    (htoken : StandsAt 0 cs token.span token.text) (hfaithful : token.IsFaithful)
    (h : step state token = .ok next) : next.IsPlaced cs token.span.stop := by
  obtain ⟨hstack, hfields, hplace⟩ := hstate
  have hle := htoken.start_le_stop
  have htrim := standsAt_trimAt token.span.start token.text
  have hmark {mark : Mark} (hkind : token.kind = .mark mark) :
      StandsAt 0 cs token.span [mark.char] := hfaithful mark hkind ▸ htoken
  have hfield {field : Field} (heq : state.place.field? token.span.start = some field) :
      ∀ f ∈ state.fields ++ [field], f.IsPlaced cs := by
    intro f hf
    rcases List.mem_append.1 hf with hf | hf
    · exact hfields f hf
    · rw [List.mem_singleton.1 hf]
      exact isPlaced_of_field? hplace htoken.hasSpan.boundaries.1 heq
  have hopen (group : OpenGroup) (hgroup : group ∈ state.stack) :
      group.IsPlaced cs token.span.stop := (hstack group hgroup).mono hle
  cases step_eq_ok_iff.1 h with
  | blank => exact ⟨hopen, hfields, trivial⟩
  | text => exact ⟨hopen, hfields, htoken.trans htrim, nofun⟩
  | textAfterPort mark =>
    obtain ⟨hplaced, hstop⟩ := hplace
    refine ⟨hopen, hfields, htoken.trans htrim, fun m hm => ?_⟩
    cases hm
    refine ⟨hplaced, ?_⟩
    -- brackets, then the token, then its text without the blanks around it
    calc mark.brackets.start ≤ mark.brackets.stop := hplaced.brackets.start_le_stop
      _ ≤ token.span.start := hstop
      _ ≤ _ := htrim.le_start
      _ ≤ _ := htrim.start_le_stop
  | blankAfterGroup => exact ⟨hopen, hfields, hplace⟩
  | openPort hkind => exact ⟨hopen, hfields, hmark hkind, rfl⟩
  | name => exact ⟨hopen, hfields, hplace.1, hplace.2, htoken, rfl⟩
  | closePort bracket name hkind =>
    refine ⟨hopen, hfields, isPlaced_portOf hplace (hmark hkind), ?_⟩
    rw [portOf_brackets]
    exact Nat.le_refl _
  | bar _ heq => exact ⟨hopen, hfield heq, trivial⟩
  | @openGroup _ fields _ hkind =>
    have hgroup : OpenGroup.IsPlaced cs token.span.stop ⟨fields, token.span.start⟩ :=
      ⟨hfields, token.span, hmark hkind, rfl, Nat.le_refl _⟩
    exact ⟨List.forall_mem_cons.2 ⟨hgroup, hopen⟩, nofun, trivial⟩
  | closeGroup group hkind heq =>
    obtain ⟨hgroup, hrest⟩ := List.forall_mem_cons.1 hopen
    obtain ⟨brace, hbrace, hstart, hstop⟩ := (hstack group List.mem_cons_self).brace
    refine ⟨hrest, hgroup.before, .group (hfield heq) ?_⟩
    rw [← hstart]
    exact standsAt_through hbrace (hmark hkind) hstop

/-- A token that cannot be read is the fault itself. -/
theorem exists_expected_of_step_error {fault : Located Fault}
    (h : step state token = .error fault) :
    ∃ expected, fault = ⟨.extraneous token expected, token.span⟩ := by
  unfold step stepMark stepText closeGroup surplus at h
  repeat' split at h
  all_goals cases h
  all_goals exact ⟨_, rfl⟩

/-! ## A whole label -/

theorem standsAt_of_tiles {offset : Nat} {tokens : List Token} (h : Tiles offset cs tokens) :
    ∀ token ∈ tokens, StandsAt offset cs token.span token.text := by
  induction h with
  | nil => exact nofun
  | @cons offset token after rest hspan _ ih =>
    refine List.forall_mem_cons.2 ⟨?_, fun t ht => (ih t ht).append_left⟩
    rw [hspan]
    exact standsAt_self.append_right

/-- What every step keeps, from one end of its token to the other, is kept by a run. -/
theorem run_of_step (keeps : Nat → State → Prop) {rest : List Char} {tokens : List Token}
    (htiles : Tiles position rest tokens)
    (hstep : ∀ token ∈ tokens, ∀ {state next : State},
      token.span = Span.ofSize token.span.start (size token.text) →
      keeps token.span.start state → step state token = .ok next → keeps token.span.stop next)
    (hstate : keeps position state) (h : run state tokens = .ok next) :
    keeps (position + size rest) next := by
  induction htiles generalizing state with
  | nil =>
    cases h
    exact hstate
  | @cons position token after rest hspan _ ih =>
    obtain ⟨htoken, hstep⟩ := List.forall_mem_cons.1 hstep
    rw [run] at h
    split at h
    · next next' hnext =>
      rw [hspan] at htoken
      rw [size_append, ← Nat.add_assoc]
      exact ih hstep (htoken rfl hstate hnext) h
    · cases h

/-- A run that fails stops at one of its tokens. -/
theorem exists_token_of_run_error {tokens : List Token} {fault : Located Fault}
    (h : run state tokens = .error fault) :
    ∃ before token after state', tokens = before ++ token :: after ∧
      run state before = .ok state' ∧ step state' token = .error fault := by
  induction tokens generalizing state with
  | nil => cases h
  | cons token tokens ih =>
    rw [run] at h
    split at h
    · next next hstep =>
      obtain ⟨before, found, after, state', rfl, hrun, hfound⟩ := ih h
      refine ⟨token :: before, found, after, state', rfl, ?_, hfound⟩
      rw [run, hstep]
      exact hrun
    · next hstep =>
      cases h
      exact ⟨[], token, tokens, state, rfl, rfl, hstep⟩

theorem standsAt_tokens (cs : List Char) :
    ∀ token ∈ tokens cs, StandsAt 0 cs token.span token.text ∧ token.IsFaithful := fun token h =>
  ⟨standsAt_of_tiles (tiles_tokens cs) token h, isFaithful_of_mem_joinAtoms 0 token h⟩

/-- **Labels.** All fields of a label are placed. -/
theorem isPlaced_of_read {label : List Field} (h : read cs = .ok label) :
    ∀ field ∈ label, field.IsPlaced cs := by
  obtain ⟨fields, place, field, hrun, hfield, rfl⟩ := exists_run_of_read h
  have hend : HasBoundary 0 cs (size cs) := ⟨cs, [], by simp, by simp⟩
  have hstate : State.IsPlaced cs (0 + size cs) ⟨[], fields, place⟩ := by
    refine run_of_step (State.IsPlaced cs) (tiles_tokens cs)
      (fun token htoken _ _ _ hstate hstep => ?_) State.start_isPlaced hrun
    obtain ⟨hstands, hfaithful⟩ := standsAt_tokens cs token htoken
    exact isPlaced_of_step hstate hstands hfaithful hstep
  refine List.forall_mem_append.2 ⟨hstate.fields, List.forall_mem_singleton.2 ?_⟩
  exact isPlaced_of_field? hstate.place hend hfield

/-- A label that cannot be read is reported at one of its tokens or at its end. -/
theorem hasSpan_of_read_error {fault : Located Fault} (h : read cs = .error fault) :
    HasSpan 0 cs fault.span := by
  unfold read at h
  split at h
  · have hend : HasSpan 0 cs (Span.empty (size cs)) := by
      have hempty := standsAt_end 0 cs
      rw [Nat.zero_add] at hempty
      exact hempty.hasSpan
    unfold State.finish at h
    split at h
    · cases h
      exact hend
    · split at h
      · cases h
      · cases h
        exact hend
  · next fault' hrun =>
    cases h
    obtain ⟨before, token, after, _, htokens, -, hstep⟩ := exists_token_of_run_error hrun
    obtain ⟨expected, rfl⟩ := exists_expected_of_step_error hstep
    exact (standsAt_tokens cs token (by simp [htokens])).1.hasSpan

/-! ## Checks -/

mutual

theorem isPlaced_of_mem_leaves {leaf : Leaf} : ∀ {field : Field}, field.IsPlaced cs →
    leaf ∈ field.leaves → leaf.IsPlaced cs
  | .leaf _, .leaf hleaf, hmem => by
    rw [Field.leaves, List.mem_singleton] at hmem
    rwa [hmem]
  | .group _ _, .group hfields _, hmem => isPlaced_of_mem_leavesOf hfields hmem

theorem isPlaced_of_mem_leavesOf {leaf : Leaf} : ∀ {fields : List Field},
    (∀ field ∈ fields, field.IsPlaced cs) → leaf ∈ leavesOf fields → leaf.IsPlaced cs
  | field :: fields, hfields, hmem => by
    obtain ⟨hfield, hrest⟩ := List.forall_mem_cons.1 hfields
    rw [leavesOf] at hmem
    rcases List.mem_append.1 hmem with hmem | hmem
    · exact isPlaced_of_mem_leaves hfield hmem
    · exact isPlaced_of_mem_leavesOf hrest hmem

end

/-- A problem is at a span of the label, a repeated name at that name. -/
structure Problem.IsPlaced (cs : List Char) (p : Located Problem) : Prop where
  hasSpan : HasSpan 0 cs p.span
  duplicate : ∀ name, p.item = .duplicate name → StandsAt 0 cs p.span name

theorem isPlaced_of_mem_checkLeaf {names : List (List Char)} {leaf : Leaf} {p : Located Problem}
    (hleaf : leaf.IsPlaced cs) (h : p ∈ checkLeaf names leaf) : Problem.IsPlaced cs p := by
  unfold checkLeaf at h
  split at h
  · cases h
  · next port hport =>
    split at h
    · rw [List.mem_singleton.1 h]
      exact ⟨hleaf.hasSpan, nofun⟩
    · next hne =>
      split at h
      · rw [List.mem_singleton.1 h]
        rcases hleaf.port port hport with ⟨-, hname⟩ | ⟨hnil, -⟩
        · refine ⟨hname.hasSpan, ?_⟩
          rintro name ⟨⟩
          exact hname
        · rw [hnil] at hne
          exact absurd rfl hne
      · cases h

/-- **Problems of record labels.** They are reported at spans of the label, and names of
ports that repeat at those names. -/
theorem isPlaced_of_mem_check {label : List Field} {p : Located Problem}
    (hread : read cs = .ok label) (h : p ∈ check label) : Problem.IsPlaced cs p := by
  obtain ⟨leaf, hleaf, hp⟩ := List.mem_flatMap.1 h
  exact isPlaced_of_mem_checkLeaf (isPlaced_of_mem_leavesOf (isPlaced_of_read hread) hleaf) hp

end DotAttributes.Record
