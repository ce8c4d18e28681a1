import DotAttributes.Proofs.Findings
import DotAttributes.Proofs.Record.Trimming
import Mathlib.Data.List.Basic

/-!
# The ports of a record label

A leaf is written as its text, with the marker of its port in front of it: a name in angle brackets,
with blanks around it. The reader keeps that of every leaf (`isWritten_of_read`). What is found of a
label depends on the ports of its leaves alone: a port without a name is reported at its leaf, and a
name that several leaves have is reported at each of them (`checkRecord_eq_portProblems`).
-/

namespace DotAttributes.Record

open Text

/-! ## Leaves as they are written -/

/-- The port with the characters `name` between its brackets: its name is trimmed, and without a
name it stands at its brackets. -/
def portBetween (brackets : Span) (name : List Char) : Located (List Char) :=
  if trim name = [] then ⟨[], brackets⟩ else trimAt (brackets.start + 1) name

/-- The place of the marker with the characters `name` between its brackets. -/
def markerSpan (start : Nat) (name : List Char) : Span :=
  Span.ofSize start (size ('<' :: name ++ ['>']))

/-- A leaf stands at its place as it is written: its trimmed text, and in front of it the marker of
its port, if it has one. Behind a marker without a text nothing else belongs to the leaf. -/
def Leaf.IsWritten (cs : List Char) (leaf : Leaf) : Prop :=
  trim leaf.text = leaf.text ∧
    match leaf.port with
    | none => StandsAt 0 cs leaf.span leaf.text
    | some port => ∃ name gap, port = portBetween (markerSpan leaf.span.start name) name ∧
        isBlankText gap = true ∧ (leaf.text = [] → gap = []) ∧
        StandsAt 0 cs leaf.span ('<' :: name ++ ['>'] ++ gap ++ leaf.text)

/-- What has been read of a field will be a leaf as it is written. -/
def Place.IsWritten (cs : List Char) (position : Nat) : Place → Prop
  | .start | .blank | .port .. | .afterGroup .. => True
  | .afterPort mark =>
    Leaf.IsWritten cs ⟨some mark.port, [], mark.brackets⟩ ∧ mark.brackets.stop = position
  | .afterText mark text => ∀ next, HasBoundary 0 cs next →
    Leaf.IsWritten cs ⟨mark.map PortMark.port, text.item, leafSpan next mark text⟩

/-- All leaves that have been read are as they are written. -/
structure State.IsWritten (cs : List Char) (position : Nat) (state : State) : Prop where
  placed : state.IsPlaced cs position
  leaves : ∀ leaf ∈ fieldLeaves state.stack state.fields ++ state.place.leaves, leaf.IsWritten cs
  place : state.place.IsWritten cs position

variable {cs : List Char} {position : Nat} {state state' : State} {token : Token}

theorem State.start_isWritten : State.start.IsWritten cs position :=
  ⟨State.start_isPlaced, nofun, trivial⟩

/-- The field that has been read has leaves as they are written. -/
theorem isWritten_of_field? {place : Place} {next : Nat} {field : Field}
    (hplace : place.IsWritten cs position) (hleaves : ∀ leaf ∈ place.leaves, leaf.IsWritten cs)
    (hnext : HasBoundary 0 cs next) (h : place.field? next = some field) :
    ∀ leaf ∈ field.leaves, leaf.IsWritten cs := by
  have hempty : Leaf.IsWritten cs ⟨none, [], Span.empty next⟩ := ⟨rfl, standsAt_empty hnext⟩
  cases place with
  | start =>
    cases h
    exact List.forall_mem_singleton.2 hempty
  | blank =>
    cases h
    exact List.forall_mem_singleton.2 hempty
  | port bracket name => cases h
  | afterPort mark =>
    cases h
    exact List.forall_mem_singleton.2 hplace.1
  | afterText mark text =>
    cases h
    exact List.forall_mem_singleton.2 (hplace next hnext)
  | afterGroup group blank =>
    cases h
    exact hleaves

/-- What stands between brackets stands at their places. -/
theorem eq_markerSpan {s : Span} {name : List Char} (h : StandsAt 0 cs s ('<' :: name ++ ['>'])) :
    s = markerSpan s.start name := by
  obtain ⟨before, after, -, rfl⟩ := h
  rfl

/-- A port that is closed is a leaf as it is written. -/
theorem isWritten_portOf {bracket close : Span} {name : Option Token}
    (hport : (Place.port bracket name).IsPlaced cs close.start)
    (hclose : StandsAt 0 cs close ['>']) :
    Leaf.IsWritten cs ⟨some (portOf bracket name close).port, [], bracket.through close⟩ := by
  refine ⟨rfl, ?_⟩
  cases name with
  | none =>
    obtain ⟨hbracket, hstop⟩ := hport
    have hbrackets := hbracket.append hclose hstop
    refine ⟨[], [], ?_, rfl, fun _ => rfl, hbrackets⟩
    rw [← eq_markerSpan hbrackets]
    rfl
  | some name =>
    obtain ⟨hbracket, hstart, hname, hstop⟩ := hport
    have hbrackets : StandsAt 0 cs (bracket.through close) ('<' :: name.text ++ ['>']) :=
      (hbracket.append hname hstart).append hclose hstop
    refine ⟨name.text, [], ?_, rfl, fun _ => rfl, by simpa using hbrackets⟩
    have hopen : name.span.start = bracket.start + 1 := hstart.symm.trans hbracket.stop_eq
    rw [← eq_markerSpan hbrackets, portBetween, portOf]
    have hitem : (trimAt (bracket.start + 1) name.text).item = trim name.text := rfl
    simp only [Option.map_some, Option.getD_some, Span.through_start, List.isEmpty_iff, hopen,
      hitem]
    split <;> rfl

/-- A text behind a port is a leaf as it is written, together with the port. -/
theorem isWritten_textAfterPort {mark : PortMark}
    (hmark : Leaf.IsWritten cs ⟨some mark.port, [], mark.brackets⟩)
    (hnext : mark.brackets.stop = token.span.start)
    (htoken : StandsAt 0 cs token.span token.text) (next : Nat) :
    Leaf.IsWritten cs ⟨some mark.port, trim token.text,
      leafSpan next (some mark) (trimAt token.span.start token.text)⟩ := by
  by_cases htext : trim token.text = []
  · -- blanks behind a port do not belong to the leaf
    rwa [leafSpan_of_nil htext, htext]
  · rw [leafSpan_of_ne_nil htext]
    obtain ⟨-, name, gap, hport, -, hgap, hbrackets⟩ := hmark
    have hgap : gap = [] := hgap rfl
    subst hgap
    rw [List.append_nil, List.append_nil] at hbrackets
    have hblanks : isBlankText (token.text.takeWhile isBlank) = true :=
      List.all_eq_true.2 fun c hc => List.mem_takeWhile_imp hc
    have hbehind := htoken.trans (standsAt_blanks_trim token.span.start token.text)
    refine ⟨trim_trim _, name, token.text.takeWhile isBlank, hport, hblanks,
      fun hnil => absurd hnil htext, ?_⟩
    have hwhole := hbrackets.append hbehind hnext
    rwa [← List.append_assoc] at hwhole

/-- A text without a port is a leaf as it is written. -/
theorem isWritten_text (htoken : StandsAt 0 cs token.span token.text) {next : Nat}
    (hnext : HasBoundary 0 cs next) :
    Leaf.IsWritten cs ⟨none, trim token.text,
      leafSpan next none (trimAt token.span.start token.text)⟩ := by
  refine ⟨trim_trim _, ?_⟩
  by_cases htext : trim token.text = []
  · rw [leafSpan_of_nil htext, htext]
    exact standsAt_empty hnext
  · rw [leafSpan_of_ne_nil htext]
    exact htoken.trans (standsAt_trimAt token.span.start token.text)

/-- A step keeps the leaves as they are written. -/
theorem isWritten_of_step (hstate : state.IsWritten cs token.span.start)
    (htoken : StandsAt 0 cs token.span token.text) (hfaithful : token.IsFaithful)
    (h : step state token = .ok state') : state'.IsWritten cs token.span.stop := by
  obtain ⟨hplaced, hleaves, hplace⟩ := hstate
  obtain ⟨hfront, hlast⟩ := List.forall_mem_append.1 hleaves
  refine ⟨isPlaced_of_step hplaced htoken hfaithful h, ?_, ?_⟩
  · rcases leaves_of_step h with heq | ⟨field, hfield, heq⟩
    · rwa [heq]
    · rw [heq]
      refine List.forall_mem_append.2 ⟨hfront, ?_⟩
      exact isWritten_of_field? hplace hlast htoken.hasSpan.boundaries.1 hfield
  · cases step_eq_ok_iff.1 h with
    | blank => exact trivial
    | text => exact fun _ hnext => isWritten_text htoken hnext
    | textAfterPort => exact fun next _ => isWritten_textAfterPort hplace.1 hplace.2 htoken next
    | blankAfterGroup => exact trivial
    | openPort => exact trivial
    | name => exact trivial
    | closePort bracket name hkind =>
      have hclose : StandsAt 0 cs token.span ['>'] := hfaithful .rightAngle hkind ▸ htoken
      refine ⟨?_, by rw [portOf_brackets]; rfl⟩
      rw [portOf_brackets]
      exact isWritten_portOf hplaced.place hclose
    | bar => exact trivial
    | openGroup => exact trivial
    | closeGroup => exact trivial

/-- **Leaves.** Every leaf of a label stands at its place as it is written. -/
theorem isWritten_of_read {label : List Field} (h : read cs = .ok label) :
    ∀ leaf ∈ leavesOf label, leaf.IsWritten cs := by
  obtain ⟨fields, place, field, hrun, hfield, rfl⟩ := exists_run_of_read h
  have hend : HasBoundary 0 cs (size cs) := ⟨cs, [], by simp, by simp⟩
  have hstate : State.IsWritten cs (0 + size cs) ⟨[], fields, place⟩ := by
    refine run_of_step (State.IsWritten cs) (tiles_tokens cs)
      (fun token htoken _ _ _ hstate hstep => ?_) State.start_isWritten hrun
    obtain ⟨hstands, hfaithful⟩ := standsAt_tokens cs token htoken
    exact isWritten_of_step hstate hstands hfaithful hstep
  obtain ⟨hfront, hlast⟩ := List.forall_mem_append.1 hstate.leaves
  rw [leavesOf_append, leavesOf_singleton]
  exact List.forall_mem_append.2 ⟨hfront, isWritten_of_field? hstate.place hlast hend hfield⟩

/-! ## Problems of ports -/

/-- Whether a leaf has a port of the given name. -/
def Leaf.hasPort (name : List Char) (leaf : Leaf) : Bool := leaf.port.any (·.item = name)

/-- What is wrong with the port of a leaf, among all leaves of a label. -/
def portProblem? (leaves : List Leaf) (leaf : Leaf) : Option (Located Problem) :=
  leaf.port.bind fun port =>
    if port.item = [] then some ⟨.unnamed, leaf.span⟩
    else if 2 ≤ leaves.countP (Leaf.hasPort port.item) then some ⟨.duplicate port.item, port.span⟩
    else none

/-- What is wrong with the ports of the leaves of a label. -/
def portProblems (leaves : List Leaf) : List (Located Problem) :=
  leaves.filterMap (portProblem? leaves)

variable {leaves : List Leaf} {leaf : Leaf} {name : List Char}

/-- A name is among the names of the ports as often as leaves have it. -/
theorem count_portNames (hname : name ≠ []) :
    (portNames leaves).count name = leaves.countP (Leaf.hasPort name) := by
  rw [portNames, List.count_filter (by simpa using hname), List.count_eq_countP,
    List.countP_filterMap]
  refine List.countP_congr fun leaf _ => ?_
  cases hport : leaf.port <;> simp [Leaf.hasPort, hport]

/-- What is found of a leaf is what is wrong with its port. -/
theorem checkLeaf_eq (leaves : List Leaf) (leaf : Leaf) :
    checkLeaf (portNames leaves) leaf = (portProblem? leaves leaf).toList := by
  unfold checkLeaf portProblem?
  cases leaf.port with
  | none => rfl
  | some port =>
    simp only [Option.bind_some, List.isEmpty_iff]
    by_cases hname : port.item = []
    · rw [if_pos hname, if_pos hname]
      rfl
    · rw [if_neg hname, if_neg hname, count_portNames hname]
      by_cases hseveral : 1 < leaves.countP (Leaf.hasPort port.item)
      · rw [if_pos hseveral, if_pos (Nat.succ_le_of_lt hseveral)]
        rfl
      · rw [if_neg hseveral, if_neg fun htwo => hseveral (Nat.lt_of_succ_le htwo)]
        rfl

theorem check_eq_portProblems (label : List Field) :
    check label = portProblems (leavesOf label) := by
  rw [portProblems, List.filterMap_eq_flatMap_toList]
  exact List.flatMap_congr fun leaf _ => checkLeaf_eq _ leaf

/-- A name is found at the leaves that have it, if there are several of them. -/
theorem any_duplicate_portProblem? (hname : name ≠ []) :
    (portProblem? leaves leaf).any (·.item = .duplicate name) =
      (leaf.hasPort name && decide (2 ≤ leaves.countP (Leaf.hasPort name))) := by
  have hport : leaf.hasPort name = leaf.port.any (·.item = name) := rfl
  rw [hport, portProblem?]
  cases leaf.port with
  | none => rfl
  | some port =>
    by_cases heq : port.item = name
    · subst heq
      by_cases htwo : 2 ≤ leaves.countP (Leaf.hasPort port.item) <;> simp [hname, htwo]
    · simp only [Option.bind_some, Option.any_some, heq, decide_false, Bool.false_and]
      split
      · rfl
      · split
        · simpa using heq
        · rfl

/-- A name that several leaves have is found as often as leaves have it, other names never. -/
theorem countP_duplicate_portProblems (leaves : List Leaf) (hname : name ≠ []) :
    (portProblems leaves).countP (·.item = .duplicate name) =
      if 2 ≤ leaves.countP (Leaf.hasPort name) then leaves.countP (Leaf.hasPort name) else 0 := by
  have hleaf (leaf : Leaf) :
      ((portProblem? leaves leaf).map fun p => decide (p.item = .duplicate name)).getD false =
        (leaf.hasPort name && decide (2 ≤ leaves.countP (Leaf.hasPort name))) := by
    rw [← any_duplicate_portProblem? hname]
    cases portProblem? leaves leaf <;> rfl
  rw [portProblems, List.countP_filterMap, List.countP_congr fun leaf _ => by rw [hleaf leaf]]
  split
  · next htwo => simp [htwo]
  · next htwo => simp [htwo]

/-- A name that is found is one, and several leaves have it. -/
theorem of_duplicate_mem_portProblems {span : Span}
    (h : ⟨.duplicate name, span⟩ ∈ portProblems leaves) :
    name ≠ [] ∧ 2 ≤ leaves.countP (Leaf.hasPort name) := by
  obtain ⟨leaf, -, hleaf⟩ := List.mem_filterMap.1 h
  obtain ⟨port, -, hport⟩ := Option.bind_eq_some_iff.1 hleaf
  split at hport
  · cases hport
  · next hname =>
    split at hport
    · next htwo =>
      cases hport
      exact ⟨hname, htwo⟩
    · cases hport

/-- No name is found alone. -/
theorem countP_portDuplicate_ne_one (leaves : List Leaf) :
    (portProblems leaves).countP (·.item.kind = .portDuplicate) ≠ 1 := by
  intro hone
  obtain ⟨p, hp, hkind⟩ := List.countP_pos_iff.1 (by omega : 0 < (portProblems leaves).countP
    (·.item.kind = .portDuplicate))
  obtain ⟨_ | name, span⟩ := p
  · simp [Problem.kind] at hkind
  · obtain ⟨hname, htwo⟩ := of_duplicate_mem_portProblems hp
    have hcount := countP_duplicate_portProblems leaves hname
    rw [if_pos htwo] at hcount
    have hle : (portProblems leaves).countP (·.item = .duplicate name) ≤
        (portProblems leaves).countP (·.item.kind = .portDuplicate) := by
      refine List.countP_mono_left fun q _ hq => ?_
      rw [of_decide_eq_true hq]
      rfl
    omega

end DotAttributes.Record

namespace DotAttributes

open Record Text

/-- **Problems of ports.** Of a record label the problems of its ports are found, leaf by leaf, and
nothing else: an error for every port whose name several leaves have, so never for one leaf alone,
and a warning for every port without a name. The leaves follow each other as they are written. -/
theorem checkRecord_eq_portProblems {a : Attribute} {label : List Field}
    (hread : Record.read a.chars = .ok label) :
    checkRecord a = a.findings .record (portProblems (leavesOf label)) ∧
      outlines (checkRecord a) = (portProblems (leavesOf label)).map (fun p =>
        ⟨p.item.kind.severity, some p.item.kind.code, some a.name, some (a.absolute p.span)⟩) ∧
      (leavesOf label).Pairwise (fun x y => x.span.stop ≤ y.span.start) ∧
      (∀ leaf ∈ leavesOf label, leaf.IsWritten a.chars) ∧
      (∀ name, name ≠ [] → (portProblems (leavesOf label)).countP (·.item = .duplicate name) =
        if 2 ≤ (leavesOf label).countP (Leaf.hasPort name)
        then (leavesOf label).countP (Leaf.hasPort name) else 0) ∧
      (checkRecord a).countP (·.diagnostic.hasKind .portDuplicate) ≠ 1 := by
  have hcheck : checkRecord a = a.findings .record (portProblems (leavesOf label)) := by
    rw [checkRecord, hread, ← check_eq_portProblems]
  refine ⟨hcheck, ?_, (areOrdered_of_read hread).pairwise, isWritten_of_read hread,
    fun name hname => countP_duplicate_portProblems _ hname, ?_⟩
  · rw [hcheck, outlines, Attribute.findings, List.map_map]
    refine List.map_congr_left fun p _ => ?_
    simp only [Function.comp_apply, Finding.outline_diagnostic, Finding.kind, Problem.kind,
      Finding.attrName?, Finding.span]
  · rw [hcheck, Attribute.findings, List.countP_map]
    simp only [Function.comp_def, Finding.hasKind_diagnostic, Finding.kind, Problem.kind]
    exact countP_portDuplicate_ne_one _

/-- A label with ports in a group and out of it: two leaves have the same name, and one has a port
without a name. -/
def nestedPorts : Attribute := .writtenAt 10 .quoted "label" "<p>|{< >b|< p >}|<P>"

theorem checkRecord_eq_portProblems_nestedPorts :
    (∃ label, Record.read nestedPorts.chars = .ok label) ∧ outlines (checkRecord nestedPorts) =
      [⟨.error, some "PORT_NAME_DUPLICATE", some "label", some ⟨12, 13⟩⟩,
        ⟨.warning, some "PORT_NAME_NOT_SET", some "label", some ⟨16, 20⟩⟩,
        ⟨.error, some "PORT_NAME_DUPLICATE", some "label", some ⟨23, 24⟩⟩] := by
  have hread : Record.read nestedPorts.chars = .ok [.leaf ⟨some ⟨['p'], ⟨1, 2⟩⟩, [], ⟨0, 3⟩⟩,
      .group [.leaf ⟨some ⟨[], ⟨5, 8⟩⟩, ['b'], ⟨5, 9⟩⟩,
        .leaf ⟨some ⟨['p'], ⟨12, 13⟩⟩, [], ⟨10, 15⟩⟩] ⟨4, 16⟩,
      .leaf ⟨some ⟨['P'], ⟨18, 19⟩⟩, [], ⟨17, 20⟩⟩] := rfl
  exact ⟨⟨_, hread⟩, (checkRecord_eq_portProblems hread).2.1.trans (by decide)⟩

end DotAttributes
