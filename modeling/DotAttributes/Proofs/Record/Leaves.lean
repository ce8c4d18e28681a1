import DotAttributes.Proofs.Record.Spans

/-!
# The leaves of a record label in order

The edges of a record are the places of its leaves and of the braces of its groups, from left to
right. Each one stops before the next one starts (`AreApart`), also those of leaves without text,
which stand where the mark behind them starts. The reader keeps this of everything it has read
(`isOrdered_of_step`), and all that is said of the places of leaves and groups follows from it
(`isNested_of_pairwise`). A field that is not a group is a leaf, so a bar adds one leaf, at whatever
depth it stands (`leafCount_of_step`).
-/

namespace DotAttributes.Record

open Text

/-! ## Leaves and edges -/

/-- The ends of a leaf are in order, and its port stands inside it and is not empty. -/
structure Leaf.IsTidy (leaf : Leaf) : Prop where
  le : leaf.span.start ≤ leaf.span.stop
  port : ∀ port ∈ leaf.port, leaf.span.start ≤ port.span.start ∧
    port.span.start < port.span.stop ∧ port.span.stop ≤ leaf.span.stop

/-- All leaves of a group stand between its ends, and so do those of the groups in it. -/
inductive Field.IsNested : Field → Prop
  | leaf (leaf : Leaf) : IsNested (.leaf leaf)
  | group {fields : List Field} {span : Span}
      (inside : ∀ leaf ∈ leavesOf fields,
        span.start < leaf.span.start ∧ leaf.span.stop < span.stop)
      (fields_nested : ∀ field ∈ fields, field.IsNested) : IsNested (.group fields span)

/-- Places that stop before `bound`, and each one before the next one starts. -/
structure AreApart (bound : Nat) (spans : List Span) : Prop where
  inside : ∀ s ∈ spans, s.start ≤ s.stop ∧ s.stop < bound
  pairwise : spans.Pairwise fun s t => s.stop < t.start

mutual

/-- The places of the leaves of a field and of the ends of its groups, from left to right. -/
def Field.edges : Field → List Span
  | .leaf leaf => [leaf.span]
  | .group fields span => Span.empty span.start :: (edgesOf fields ++ [Span.empty span.stop])

/-- The places of the leaves of fields and of the ends of their groups, from left to right. -/
def edgesOf : List Field → List Span
  | [] => []
  | field :: fields => field.edges ++ edgesOf fields

end

variable {position next bound : Nat} {front : List Span}

theorem AreApart.mono (h : AreApart bound front) (hle : bound ≤ next) : AreApart next front :=
  ⟨fun s hs => ⟨(h.inside s hs).1, Nat.lt_of_lt_of_le (h.inside s hs).2 hle⟩, h.pairwise⟩

theorem AreApart.append {s : Span} (h : AreApart bound front) (hs : s.start ≤ s.stop)
    (hstart : bound ≤ s.start) (hstop : s.stop < next) : AreApart next (front ++ [s]) := by
  constructor
  · refine List.forall_mem_append.2 ⟨fun x hx => ?_, List.forall_mem_singleton.2 ⟨hs, hstop⟩⟩
    obtain ⟨hle, hlt⟩ := h.inside x hx
    exact ⟨hle, by omega⟩
  · refine List.pairwise_append.2 ⟨h.pairwise, List.pairwise_singleton _ _, fun x hx y hy => ?_⟩
    rw [List.mem_singleton.1 hy]
    exact Nat.lt_of_lt_of_le (h.inside x hx).2 hstart

theorem leavesOf_append (fields rest : List Field) :
    leavesOf (fields ++ rest) = leavesOf fields ++ leavesOf rest := by
  induction fields with
  | nil => rw [leavesOf]; rfl
  | cons field fields ih => rw [List.cons_append, leavesOf, leavesOf, ih, List.append_assoc]

theorem leavesOf_singleton (field : Field) : leavesOf [field] = field.leaves := by
  rw [leavesOf, leavesOf, List.append_nil]

theorem edgesOf_append (fields rest : List Field) :
    edgesOf (fields ++ rest) = edgesOf fields ++ edgesOf rest := by
  induction fields with
  | nil => rw [edgesOf]; rfl
  | cons field fields ih => rw [List.cons_append, edgesOf, edgesOf, ih, List.append_assoc]

theorem edgesOf_singleton (field : Field) : edgesOf [field] = field.edges := by
  rw [edgesOf, edgesOf, List.append_nil]

mutual

theorem sublist_edges : ∀ field : Field, (field.leaves.map Leaf.span).Sublist field.edges
  | .leaf leaf => by
    rw [Field.leaves, Field.edges]
    exact List.Sublist.refl _
  | .group fields span => by
    rw [Field.leaves, Field.edges]
    exact ((sublist_edgesOf fields).trans (List.sublist_append_left _ _)).trans
      (List.sublist_cons_self _ _)

theorem sublist_edgesOf :
    ∀ fields : List Field, ((leavesOf fields).map Leaf.span).Sublist (edgesOf fields)
  | [] => by
    rw [leavesOf]
    exact List.nil_sublist _
  | field :: fields => by
    rw [leavesOf, edgesOf, List.map_append]
    exact (sublist_edges field).append (sublist_edgesOf fields)

end

theorem span_mem_edgesOf {leaf : Leaf} {fields : List Field} (h : leaf ∈ leavesOf fields) :
    leaf.span ∈ edgesOf fields :=
  (sublist_edgesOf fields).subset (List.mem_map_of_mem h)

mutual

theorem isNested_of_pairwise : ∀ {field : Field},
    field.edges.Pairwise (fun s t => s.stop < t.start) → field.IsNested
  | .leaf leaf, _ => .leaf leaf
  | .group fields span, h => by
    rw [Field.edges, List.pairwise_cons, List.pairwise_append] at h
    obtain ⟨hstart, hfields, -, hstop⟩ := h
    refine .group (fun leaf hleaf => ?_) (forall_isNested_of_pairwise hfields)
    have hmem := span_mem_edgesOf hleaf
    exact ⟨hstart _ (List.mem_append_left _ hmem), hstop _ hmem _ (List.mem_singleton.2 rfl)⟩

theorem forall_isNested_of_pairwise : ∀ {fields : List Field},
    (edgesOf fields).Pairwise (fun s t => s.stop < t.start) → ∀ field ∈ fields, field.IsNested
  | [], _ => nofun
  | field :: fields, h => by
    rw [edgesOf, List.pairwise_append] at h
    exact List.forall_mem_cons.2
      ⟨isNested_of_pairwise h.1, forall_isNested_of_pairwise h.2.1⟩

end

/-! ## What has been read -/

/-- The port stands between its brackets and is not empty. -/
structure PortMark.IsTidy (mark : PortMark) : Prop where
  le : mark.brackets.start ≤ mark.port.span.start
  lt : mark.port.span.start < mark.port.span.stop
  stop_le : mark.port.span.stop ≤ mark.brackets.stop

theorem PortMark.IsTidy.start_le_stop {mark : PortMark} (h : mark.IsTidy) :
    mark.brackets.start ≤ mark.brackets.stop :=
  Nat.le_trans h.le (Nat.le_trans (Nat.le_of_lt h.lt) h.stop_le)

/-- The leaves of the field that is being read, if it is a group. -/
def Place.leaves : Place → List Leaf
  | .afterGroup group _ => group.leaves
  | .start | .blank | .port .. | .afterPort _ | .afterText .. => []

/-- The edges of the field that is being read, if it is a group. -/
def Place.edges : Place → List Span
  | .afterGroup group _ => group.edges
  | .start | .blank | .port .. | .afterPort _ | .afterText .. => []

/-- The leaves of the fields that have been read, from left to right. -/
def fieldLeaves (stack : List OpenGroup) (fields : List Field) : List Leaf :=
  (stack.reverse.flatMap fun group => leavesOf group.before) ++ leavesOf fields

/-- The edges of the fields that have been read and of the open groups, from left to right. -/
def fieldEdges (stack : List OpenGroup) (fields : List Field) : List Span :=
  (stack.reverse.flatMap fun group => edgesOf group.before ++ [Span.empty group.start]) ++
    edgesOf fields

/-- What is being read of a field stands in order between `bound`, in front of which everything
else stops, and `position`. -/
def Place.Follows (bound position : Nat) : Place → Prop
  | .start | .blank => bound ≤ position
  | .afterGroup .. => bound ≤ position + 1
  | .port bracket none =>
    bound ≤ bracket.start ∧ bracket.start < bracket.stop ∧ bracket.stop ≤ position
  | .port bracket (some name) =>
    bound ≤ bracket.start ∧ bracket.start < bracket.stop ∧ bracket.stop ≤ name.span.start ∧
      name.span.stop = name.span.start + size name.text ∧ name.span.stop ≤ position
  | .afterPort mark => bound ≤ mark.brackets.start ∧ mark.IsTidy ∧ mark.brackets.stop ≤ position
  | .afterText none text =>
    bound ≤ text.span.start ∧ text.span.start ≤ text.span.stop ∧ text.span.stop ≤ position
  | .afterText (some mark) text =>
    bound ≤ mark.brackets.start ∧ mark.IsTidy ∧ mark.brackets.stop ≤ text.span.start ∧
      text.span.start ≤ text.span.stop ∧ text.span.stop ≤ position

/-- The leaves that have been read are tidy, the edges are apart, and what is being read follows
them. -/
structure State.IsOrdered (position : Nat) (state : State) : Prop where
  tidy : ∀ leaf ∈ fieldLeaves state.stack state.fields ++ state.place.leaves, leaf.IsTidy
  apart : ∃ bound, AreApart bound (fieldEdges state.stack state.fields ++ state.place.edges) ∧
    state.place.Follows bound position

theorem State.start_isOrdered : State.start.IsOrdered position :=
  ⟨nofun, 0, ⟨nofun, .nil⟩, Nat.zero_le _⟩

/-- A field that has been read is a group, or a leaf between `bound` and the position. -/
theorem isTidy_of_field? {place : Place} {field : Field} (hplace : place.Follows bound position)
    (h : place.field? position = some field) :
    (field.leaves = place.leaves ∧ field.edges = place.edges ∧ bound ≤ position + 1) ∨
      place.edges = [] ∧ ∃ leaf, field = .leaf leaf ∧ leaf.IsTidy ∧
        bound ≤ leaf.span.start ∧ leaf.span.stop ≤ position := by
  cases place with
  | start =>
    cases h
    exact .inr ⟨rfl, _, rfl, ⟨Nat.le_refl _, nofun⟩, hplace, Nat.le_refl _⟩
  | blank =>
    cases h
    exact .inr ⟨rfl, _, rfl, ⟨Nat.le_refl _, nofun⟩, hplace, Nat.le_refl _⟩
  | port bracket name => cases h
  | afterPort mark =>
    cases h
    obtain ⟨hstart, hmark, hstop⟩ := hplace
    refine .inr ⟨rfl, _, rfl, ⟨hmark.start_le_stop, fun port hport => ?_⟩, hstart, hstop⟩
    cases hport
    exact ⟨hmark.le, hmark.lt, hmark.stop_le⟩
  | afterText mark text =>
    cases h
    refine .inr ⟨rfl, _, rfl, ?_⟩
    cases mark with
    | none =>
      obtain ⟨hstart, hle, hstop⟩ := hplace
      by_cases hitem : text.item = []
      · have hspan : leafSpan position none text = Span.empty position := leafSpan_of_nil hitem ..
        refine ⟨⟨?_, nofun⟩, ?_, ?_⟩ <;> simp only [hspan, Span.empty] <;> omega
      · have hspan : leafSpan position none text = text.span := leafSpan_of_ne_nil hitem ..
        refine ⟨⟨?_, nofun⟩, ?_, ?_⟩ <;> simpa only [hspan]
    | some mark =>
      obtain ⟨hstart, hmark, hbetween, hle, hstop⟩ := hplace
      have hbrackets := hmark.start_le_stop
      -- the leaf starts at the brackets and stops there or at the end of the text
      have hends : (leafSpan position (some mark) text).start = mark.brackets.start ∧
          mark.brackets.stop ≤ (leafSpan position (some mark) text).stop ∧
          (leafSpan position (some mark) text).stop ≤ position := by
        by_cases hitem : text.item = []
        · rw [leafSpan_of_nil hitem]
          exact ⟨rfl, Nat.le_refl _, show mark.brackets.stop ≤ position by omega⟩
        · rw [leafSpan_of_ne_nil hitem]
          exact ⟨rfl, show mark.brackets.stop ≤ text.span.stop by omega, hstop⟩
      obtain ⟨hfirst, hlow, hhigh⟩ := hends
      refine ⟨⟨?_, fun port hport => ?_⟩, hfirst ▸ hstart, hhigh⟩
      · show (leafSpan position (some mark) text).start ≤ (leafSpan position (some mark) text).stop
        omega
      · cases hport
        have hport := hmark.stop_le
        exact ⟨hfirst ▸ hmark.le, hmark.lt, Nat.le_trans hport hlow⟩
  | afterGroup group blank =>
    cases h
    exact .inl ⟨rfl, rfl, hplace⟩

/-- The edges of the field that has been read follow those in front of it. -/
theorem areApart_of_field? {place : Place} {field : Field}
    (hfront : AreApart bound (front ++ place.edges)) (hplace : place.Follows bound position)
    (h : place.field? position = some field) :
    AreApart (position + 1) (front ++ field.edges) := by
  rcases isTidy_of_field? hplace h with
    ⟨-, hedges, hbound⟩ | ⟨hnil, leaf, rfl, hleaf, hstart, hstop⟩
  · rw [hedges]
    exact hfront.mono hbound
  · rw [hnil, List.append_nil] at hfront
    exact hfront.append hleaf.le hstart (Nat.lt_succ_of_le hstop)

theorem isTidy_of_mem_field? {place : Place} {field : Field} {leaves : List Leaf}
    (hfront : ∀ leaf ∈ leaves ++ place.leaves, leaf.IsTidy) (hplace : place.Follows bound position)
    (h : place.field? position = some field) :
    ∀ leaf ∈ leaves ++ field.leaves, leaf.IsTidy := by
  rcases isTidy_of_field? hplace h with ⟨hleaves, -⟩ | ⟨-, leaf, rfl, hleaf, -⟩
  · rwa [hleaves]
  · exact List.forall_mem_append.2
      ⟨(List.forall_mem_append.1 hfront).1, List.forall_mem_singleton.2 hleaf⟩

/-! ## One token -/

/-- A trimmed text lies inside the text. -/
theorem trimAt_isInside (offset : Nat) (cs : List Char) :
    offset ≤ (trimAt offset cs).span.start ∧
      (trimAt offset cs).span.start ≤ (trimAt offset cs).span.stop ∧
      (trimAt offset cs).span.stop ≤ offset + size cs :=
  have hstands := standsAt_trimAt offset cs
  ⟨hstands.le_start, hstands.start_le_stop, hstands.stop_le⟩

/-- The port between two brackets stands between them. -/
theorem isTidy_portOf {bracket close : Span} {name : Option Token}
    (hport : (Place.port bracket name).Follows bound close.start)
    (hclose : close.start < close.stop) : (portOf bracket name close).IsTidy := by
  have hempty : bracket.start < close.stop → PortMark.IsTidy ⟨⟨[], bracket.through close⟩,
      bracket.through close⟩ := fun hlt => ⟨Nat.le_refl _, hlt, Nat.le_refl _⟩
  unfold portOf
  cases name with
  | none =>
    obtain ⟨-, hbracket, hstop⟩ := hport
    exact hempty (by omega)
  | some name =>
    obtain ⟨-, hbracket, hstart, hsize, hstop⟩ := hport
    obtain ⟨hlow, hle, hhigh⟩ := trimAt_isInside name.span.start name.text
    simp only [Option.map_some, Option.getD_some]
    split
    · exact hempty (by omega)
    · next hne =>
      have hpos : size (trim name.text) ≠ 0 := by
        intro hzero
        exact hne (List.isEmpty_iff.2 (size_eq_zero_iff.1 hzero))
      have hlength : (trimAt name.span.start name.text).span.stop =
          (trimAt name.span.start name.text).span.start + size (trim name.text) := rfl
      refine ⟨?_, ?_, ?_⟩
      · show bracket.start ≤ (trimAt name.span.start name.text).span.start
        omega
      · show (trimAt name.span.start name.text).span.start <
          (trimAt name.span.start name.text).span.stop
        omega
      · show (trimAt name.span.start name.text).span.stop ≤ close.stop
        omega

variable {token : Token} {state state' : State}

theorem leaves_of_isFresh {place : Place} (h : place.isFresh = true) : place.leaves = [] := by
  cases place with
  | start | blank => rfl
  | port | afterPort | afterText | afterGroup => cases h

theorem edges_of_isFresh {place : Place} (h : place.isFresh = true) : place.edges = [] := by
  cases place with
  | start | blank => rfl
  | port | afterPort | afterText | afterGroup => cases h

theorem le_of_isFresh {place : Place} (h : place.isFresh = true)
    (hplace : place.Follows bound position) : bound ≤ position := by
  cases place with
  | start | blank => exact hplace
  | port | afterPort | afterText | afterGroup => cases h

/-- A step leaves the leaves as they are, or adds those of the field that has been read. -/
theorem leaves_of_step (h : step state token = .ok state') :
    fieldLeaves state'.stack state'.fields ++ state'.place.leaves =
        fieldLeaves state.stack state.fields ++ state.place.leaves ∨
      ∃ field, state.place.field? token.span.start = some field ∧
        fieldLeaves state'.stack state'.fields ++ state'.place.leaves =
          fieldLeaves state.stack state.fields ++ field.leaves := by
  cases step_eq_ok_iff.1 h with
  | blank => exact .inl rfl
  | text _ hfresh => exact .inl (by rw [leaves_of_isFresh hfresh]; rfl)
  | textAfterPort => exact .inl rfl
  | blankAfterGroup => exact .inl rfl
  | openPort _ hfresh => exact .inl (by rw [leaves_of_isFresh hfresh]; rfl)
  | name => exact .inl rfl
  | closePort => exact .inl rfl
  | bar _ heq =>
    exact .inr ⟨_, heq, by simp [fieldLeaves, Place.leaves, leavesOf_append, leavesOf_singleton]⟩
  | openGroup _ hfresh =>
    refine .inl ?_
    rw [leaves_of_isFresh hfresh]
    simp [fieldLeaves, Place.leaves, leavesOf]
  | closeGroup group _ heq =>
    refine .inr ⟨_, heq, ?_⟩
    simp [fieldLeaves, Place.leaves, Field.leaves, leavesOf_append, leavesOf_singleton]

/-- A step from one end of a token to the other keeps the edges apart. -/
theorem exists_areApart_of_step (hstate : state.IsOrdered token.span.start)
    (htoken : token.span = Span.ofSize token.span.start (size token.text)) (hne : token.text ≠ [])
    (h : step state token = .ok state') :
    ∃ bound, AreApart bound (fieldEdges state'.stack state'.fields ++ state'.place.edges) ∧
      state'.place.Follows bound token.span.stop := by
  obtain ⟨-, bound, hfront, hplace⟩ := hstate
  obtain ⟨hlow, hle, hhigh⟩ := trimAt_isInside token.span.start token.text
  have hstop : token.span.stop = token.span.start + size token.text := congrArg Span.stop htoken
  have hlt : token.span.start < token.span.stop := by
    have hpos : size token.text ≠ 0 := fun hzero => hne (size_eq_zero_iff.1 hzero)
    omega
  have hfield {field : Field} (heq : state.place.field? token.span.start = some field) :
      AreApart token.span.stop (fieldEdges state.stack state.fields ++ field.edges) :=
    (areApart_of_field? hfront hplace heq).mono hlt
  cases step_eq_ok_iff.1 h with
  | blank => exact ⟨bound, hfront, Nat.le_trans hplace (Nat.le_of_lt hlt)⟩
  | text _ hfresh =>
    have hbound := le_of_isFresh hfresh hplace
    rw [edges_of_isFresh hfresh] at hfront
    exact ⟨bound, hfront, by omega, hle, by omega⟩
  | textAfterPort =>
    obtain ⟨hstart, hmark, hbrackets⟩ := hplace
    exact ⟨bound, hfront, hstart, hmark, by omega, hle, by omega⟩
  | blankAfterGroup => exact ⟨bound, hfront, Nat.le_trans hplace (Nat.succ_le_succ hlt.le)⟩
  | openPort _ hfresh =>
    have hbound := le_of_isFresh hfresh hplace
    rw [edges_of_isFresh hfresh] at hfront
    exact ⟨bound, hfront, hbound, hlt, Nat.le_refl _⟩
  | name =>
    obtain ⟨hstart, hbracket, hbrackets⟩ := hplace
    exact ⟨bound, hfront, hstart, hbracket, hbrackets, hstop, Nat.le_refl _⟩
  | closePort bracket name =>
    refine ⟨bound, hfront, ?_, isTidy_portOf hplace hlt, ?_⟩
    · rw [portOf_brackets]
      cases name with
      | none => exact hplace.1
      | some name => exact hplace.1
    · rw [portOf_brackets]
      exact Nat.le_refl _
  | bar _ heq =>
    refine ⟨token.span.stop, ?_, Nat.le_refl _⟩
    have hedges := hfield heq
    simpa [fieldEdges, Place.edges, edgesOf_append, edgesOf_singleton] using hedges
  | openGroup _ hfresh =>
    have hbound := le_of_isFresh hfresh hplace
    rw [edges_of_isFresh hfresh, List.append_nil] at hfront
    refine ⟨token.span.stop, ?_, Nat.le_refl _⟩
    have hedges := hfront.append (s := Span.empty token.span.start) (Nat.le_refl _) hbound hlt
    simpa [fieldEdges, Place.edges, edgesOf] using hedges
  | closeGroup group _ heq =>
    -- the brace itself is the last edge, so the next one starts behind its end
    refine ⟨token.span.stop + 1, ?_, Nat.le_refl _⟩
    have hedges := (hfield heq).append (s := Span.empty token.span.stop) (Nat.le_refl _)
      (Nat.le_refl _) (Nat.lt_succ_self _)
    simpa [fieldEdges, Place.edges, Field.edges, edgesOf_append, edgesOf_singleton] using hedges

/-- A step from one end of a token to the other keeps the order. -/
theorem isOrdered_of_step (hstate : state.IsOrdered token.span.start)
    (htoken : token.span = Span.ofSize token.span.start (size token.text)) (hne : token.text ≠ [])
    (h : step state token = .ok state') : state'.IsOrdered token.span.stop := by
  refine ⟨?_, exists_areApart_of_step hstate htoken hne h⟩
  obtain ⟨htidy, bound, -, hplace⟩ := hstate
  rcases leaves_of_step h with hleaves | ⟨field, hfield, hleaves⟩
  · rwa [hleaves]
  · rw [hleaves]
    exact isTidy_of_mem_field? htidy hplace hfield

/-! ## Counting -/

/-- The number of bars among tokens. -/
def bars (tokens : List Token) : Nat := tokens.countP fun token => token.kind = .mark .bar

/-- The number of leaves of the field that is being read: a field that is not a group is a leaf. -/
def Place.leafCount : Place → Nat
  | .afterGroup group _ => group.leaves.length
  | .start | .blank | .port .. | .afterPort _ | .afterText .. => 1

/-- The number of leaves of all fields, the one that is being read included. -/
def State.leafCount (state : State) : Nat :=
  (fieldLeaves state.stack state.fields).length + state.place.leafCount

theorem bars_cons (token : Token) (tokens : List Token) :
    bars (token :: tokens) = bars [token] + bars tokens := by
  rw [bars, bars, bars, ← List.countP_append, List.singleton_append]

theorem bars_of_mark {mark : Mark} (h : token.kind = .mark mark) (hne : mark ≠ .bar) :
    bars [token] = 0 := by
  simp [bars, h, hne]

theorem bars_of_isText (h : token.kind.isText = true) : bars [token] = 0 := by
  have hne : token.kind ≠ .mark .bar := by
    intro hbar
    rw [hbar] at h
    cases h
  simp [bars, hne]

theorem leafCount_of_field? {place : Place} {field : Field}
    (h : place.field? position = some field) : place.leafCount = field.leaves.length := by
  cases place with
  | start | blank | afterPort | afterText | afterGroup =>
    cases h
    rfl
  | port => cases h

theorem leafCount_of_isFresh {place : Place} (h : place.isFresh = true) :
    place.leafCount = 1 := by
  cases place with
  | start | blank => rfl
  | port | afterPort | afterText | afterGroup => cases h

/-- A bar adds a leaf, and no other token does. -/
theorem leafCount_of_step (h : step state token = .ok state') :
    state'.leafCount = state.leafCount + bars [token] := by
  cases step_eq_ok_iff.1 h with
  | blank hblank =>
    rw [bars_of_isText (isText_of_isBlank hblank)]
    rfl
  | text hkind hfresh =>
    rw [bars_of_isText hkind, State.leafCount, State.leafCount, leafCount_of_isFresh hfresh]
    rfl
  | textAfterPort _ hkind =>
    rw [bars_of_isText hkind]
    rfl
  | blankAfterGroup _ hblank =>
    rw [bars_of_isText (isText_of_isBlank hblank)]
    rfl
  | openPort hkind hfresh =>
    rw [bars_of_mark hkind (by decide), State.leafCount, State.leafCount,
      leafCount_of_isFresh hfresh]
    rfl
  | name _ hkind =>
    rw [bars_of_isText hkind]
    rfl
  | closePort _ _ hkind =>
    rw [bars_of_mark hkind (by decide)]
    rfl
  | bar hkind heq =>
    have hbar : bars [token] = 1 := by simp [bars, hkind]
    rw [hbar, State.leafCount, State.leafCount, leafCount_of_field? heq]
    simp [fieldLeaves, Place.leafCount, leavesOf_append, leavesOf_singleton, Nat.add_assoc]
  | openGroup hkind hfresh =>
    rw [bars_of_mark hkind (by decide), State.leafCount, State.leafCount,
      leafCount_of_isFresh hfresh]
    simp [fieldLeaves, Place.leafCount, leavesOf]
  | closeGroup group hkind heq =>
    rw [bars_of_mark hkind (by decide), State.leafCount, State.leafCount, leafCount_of_field? heq]
    simp [fieldLeaves, Place.leafCount, Field.leaves, leavesOf_append, leavesOf_singleton,
      Nat.add_assoc]

theorem leafCount_of_run {tokens : List Token} (h : run state tokens = .ok state') :
    state'.leafCount = state.leafCount + bars tokens := by
  induction tokens generalizing state with
  | nil =>
    cases h
    rfl
  | cons token tokens ih =>
    rw [run] at h
    split at h
    · next hstep => rw [ih h, leafCount_of_step hstep, Nat.add_assoc, ← bars_cons]
    · cases h

/-! ## A whole label -/

/-- The edges of a label are apart, and its leaves are tidy. -/
theorem areApart_of_read {cs : List Char} {label : List Field} (h : read cs = .ok label) :
    AreApart (size cs + 1) (edgesOf label) ∧ ∀ leaf ∈ leavesOf label, leaf.IsTidy := by
  obtain ⟨fields, place, field, hrun, hfield, rfl⟩ := exists_run_of_read h
  obtain ⟨htidy, bound, hfront, hplace⟩ : State.IsOrdered (0 + size cs) ⟨[], fields, place⟩ :=
    run_of_step State.IsOrdered (tiles_tokens cs)
      (fun token htoken _ _ hspan hstate hstep => isOrdered_of_step hstate hspan
        (text_ne_nil_of_mem_joinAtoms 0 token htoken) hstep) State.start_isOrdered hrun
  rw [Nat.zero_add] at hplace
  rw [edgesOf_append, edgesOf_singleton, leavesOf_append, leavesOf_singleton]
  exact ⟨areApart_of_field? hfront hplace hfield, isTidy_of_mem_field? htidy hplace hfield⟩

theorem length_leavesOf_of_read {cs : List Char} {label : List Field} (h : read cs = .ok label) :
    (leavesOf label).length = 1 + bars (tokens cs) := by
  obtain ⟨fields, place, field, hrun, hfield, rfl⟩ := exists_run_of_read h
  have hcount : State.leafCount ⟨[], fields, place⟩ = 1 + bars (tokens cs) := leafCount_of_run hrun
  rw [← hcount, State.leafCount, leafCount_of_field? hfield, leavesOf_append, leavesOf_singleton,
    List.length_append]
  rfl

/-- **Leaves.** The leaves of a label follow each other, at least one byte apart, each with its port
inside it. All leaves of a group stand between its braces, at whatever depth. There is one more of
them than there are bars in the label. -/
theorem isNested_of_read {cs : List Char} {label : List Field} (h : read cs = .ok label) :
    ((leavesOf label).Pairwise fun x y => x.span.stop < y.span.start) ∧
      (∀ leaf ∈ leavesOf label, leaf.IsTidy) ∧
      (∀ field ∈ label, field.IsNested) ∧
      (leavesOf label).length = 1 + bars (tokens cs) := by
  obtain ⟨hapart, htidy⟩ := areApart_of_read h
  have hpairwise := hapart.pairwise.sublist (sublist_edgesOf label)
  exact ⟨List.pairwise_map.1 hpairwise, htidy, forall_isNested_of_pairwise hapart.pairwise,
    length_leavesOf_of_read h⟩

/-- A group of an empty leaf and one that is nothing but a port, and an empty leaf at the end. -/
theorem isNested_of_read_emptyLeaves :
    ∃ label, read ['{', '|', ' ', '<', '>', ' ', '}', '|'] = .ok label ∧
      (leavesOf label).map Leaf.span = [⟨1, 1⟩, ⟨3, 5⟩, ⟨8, 8⟩] ∧
      ((leavesOf label).Pairwise fun x y => x.span.stop < y.span.start) ∧
      (∀ leaf ∈ leavesOf label, leaf.IsTidy) ∧ (∀ field ∈ label, field.IsNested) ∧
      (leavesOf label).length = 1 + 2 := by
  have hread : read ['{', '|', ' ', '<', '>', ' ', '}', '|'] =
      .ok [.group [.leaf ⟨none, [], ⟨1, 1⟩⟩, .leaf ⟨some ⟨[], ⟨3, 5⟩⟩, [], ⟨3, 5⟩⟩] ⟨0, 7⟩,
        .leaf ⟨none, [], ⟨8, 8⟩⟩] := rfl
  exact ⟨_, hread, rfl, isNested_of_read hread⟩

end DotAttributes.Record
