import DotAttributes.Number.Literal
import DotAttributes.Proofs.Arrow.Spans
import DotAttributes.Proofs.Color.Spans
import DotAttributes.Proofs.Markup.Spans
import DotAttributes.Proofs.Record.Spans
import DotAttributes.Proofs.Style.Spans

/-!
# Trees and faults are faithful to the text

Each reader computes values and places by themselves. Here is for all of them what they amount
to: in every tree the text at a place is the one that the tree says, and every fault has a place
in the text (`reads_isFaithful`).

What a tree says is given by its language: `Arrow.Clause.IsPlaced`, `Color.IsNamedAt`,
`Markup.Content.IsPlaced` and `Record.Field.IsPlaced`. They speak of what stands at a span, which
is what a slice finds there (`Text.slice?_eq_some_iff`).
-/

namespace DotAttributes

open Text

/-- What has been read of a text is placed in it, or else the fault is at a span of the text,
between two of its characters. -/
def IsFaithful {α β : Type} (cs : List Char) (placed : α → Prop) : Except (Located β) α → Prop
  | .ok x => placed x
  | .error fault => (slice? cs fault.span).isSome

theorem isFaithful_of {α β : Type} {cs : List Char} {placed : α → Prop}
    {outcome : Except (Located β) α} (hok : ∀ x, outcome = .ok x → placed x)
    (herror : ∀ fault, outcome = .error fault → HasSpan 0 cs fault.span) :
    IsFaithful cs placed outcome := by
  cases outcome with
  | ok x => exact hok x rfl
  | error fault =>
    obtain ⟨t, ht⟩ := herror fault rfl
    have hslice : slice? cs fault.span = some t := slice?_eq_some_iff.2 ht
    show (slice? cs fault.span).isSome
    rw [hslice]
    rfl

/-- The texts that the places of the colors of a list cover: those of its segments in front of
the shares. -/
theorem Color.map_slice?_of_readList {cs : List Char} {items : List Color.Item}
    (h : readList cs = .ok items) :
    items.map (fun item => slice? cs item.span) =
      (pieces (· == ':') cs).map fun segment => some (segment.takeWhile (· != ';')) := by
  have hplaced := standsAt_of_readSegments rfl h
  clear h
  generalize pieces (· == ':') cs = segments at hplaced ⊢
  induction hplaced with
  | nil => rfl
  | cons hitem _ ih =>
    rw [List.map_cons, List.map_cons, slice?_eq_some_iff.2 hitem]
    exact congrArg _ ih

/-- **Trees and faults are faithful to the text.** Whatever text is read as whatever type, the
places in the tree are places of the text, at which stands what the tree says:

* the name of the shape at the place of an arrow clause, and the clause with its modifiers
  around it;
* the name of a color, the text of a color of a list without its share, the name of a style;
* names of tags, of close tags and of attributes, values between two equal quotes, and text
  without blanks around it;
* the names of ports, brackets with nothing but blanks between them for a port without a name,
  and groups in braces.

The place of what stops a reader is a place of the text, too. A number is refused as a whole. -/
theorem reads_isFaithful (cs : List Char) (kind : NumberKind) :
    IsFaithful cs (fun arrow => ∀ c ∈ arrow.clauses, c.IsPlaced 0 cs) (Arrow.read cs) ∧
    IsFaithful cs (fun item => item.color.IsNamedAt 0 cs ∧ slice? cs item.span = some cs)
      (Color.read cs) ∧
    IsFaithful cs (fun items => (∀ item ∈ items, item.color.IsNamedAt 0 cs) ∧
        items.map (fun item => slice? cs item.span) =
          (pieces (· == ':') cs).map fun segment => some (segment.takeWhile (· != ';')))
      (Color.readList cs) ∧
    IsFaithful cs (fun items => ∀ item ∈ items, slice? cs item.name.span = some item.name.item)
      (Style.read cs) ∧
    IsFaithful cs (fun label => ∀ content ∈ label, content.IsPlaced cs) (Markup.read cs) ∧
    (∀ u ∈ (Markup.lex cs).unclosed, (slice? cs u.span).isSome) ∧
    IsFaithful cs (fun label => ∀ field ∈ label, field.IsPlaced cs) (Record.read cs) ∧
    IsFaithful cs (fun _ => True)
      ((Number.read kind cs).mapError fun fault => ⟨fault, ⟨0, size cs⟩⟩) := by
  refine ⟨?arrow, ?color, ?colors, ?style, ?markup, ?unclosed, ?record, ?number⟩
  case arrow =>
    exact isFaithful_of (fun _ => Arrow.isPlaced_of_read) fun _ => Arrow.hasSpan_of_read_error
  case color =>
    refine isFaithful_of (fun item hread => ⟨Color.isNamedAt_of_read hread, ?_⟩)
      fun _ => Color.hasSpan_of_read_error
    rw [Color.span_of_read hread]
    exact slice?_eq_some_iff.2 (standsAt_whole cs)
  case colors =>
    refine isFaithful_of (fun items hread => ⟨?_, Color.map_slice?_of_readList hread⟩)
      fun _ => Color.hasSpan_of_readList_error
    exact Color.isNamedAt_of_readSegments rfl hread
  case style =>
    refine isFaithful_of (fun items hread item hitem => ?_) fun _ => Style.hasSpan_of_read_error
    exact slice?_eq_some_iff.2 (Style.standsAt_of_readItems hread item hitem)
  case markup =>
    exact isFaithful_of (fun _ => Markup.isPlaced_of_read) fun _ => Markup.hasSpan_of_read_error
  case unclosed =>
    intro u hu
    have hlex : u ∈ (Markup.lexFrom .content 0 cs).unclosed := hu
    obtain ⟨t, ht⟩ := Markup.hasSpan_of_mem_unclosed u hlex
    rw [slice?_eq_some_iff.2 ht]
    rfl
  case record =>
    exact isFaithful_of (fun _ => Record.isPlaced_of_read) fun _ => Record.hasSpan_of_read_error
  case number =>
    refine isFaithful_of (fun _ _ => trivial) fun fault hfault => ?_
    cases hread : Number.read kind cs with
    | ok number =>
      rw [hread] at hfault
      cases hfault
    | error found =>
      rw [hread] at hfault
      cases hfault
      exact hasSpan_whole cs

end DotAttributes
